import Doover.DiffLookup
import Doover.TypedTags

/-! # Remote tags and their subscriptions

A `RemoteTag` reads a tag of another app from the cached aggregate, and its subscription
is meant to say the same when the aggregate changes.  The callback is not given the new
value, though, but what the diff from the old aggregate to the new one has at the path
(`callsOf_eq`), and that is another thing in two cases:

* a tag that is gone has left the aggregate, not the diff, so nobody is told;
* of an object the diff has what changed in it, so a key that is gone is not told
  either, and the callback is given a part of the object.

`onTagUpdate_exact_iff` says that these are all.
-/

namespace Doover
open Json

/-- A tag published by another app, read only. -/
structure RemoteTag (T : Type) where
  appKey : String
  tagName : String
  default : Option Json

/-- Arbitrary JSON. -/
instance : TagValue Json where
  toValue v := v
  fromValue v := some v

namespace RemoteTag
variable {T : Type} [TagValue T] (tag : RemoteTag T)

/-- The typed value of what is found at the tag's path, or the default. -/
def decoded (value : Option Json) : Option T :=
  match value with
  | some .null | none =>
    match tag.default with
    | some .null | none => none
    | some v => TagValue.fromValue v
  | some v => TagValue.fromValue v

/-- The current value in the upstream app's slot, or the declared default. -/
def get (st : TagsState) : Option T := tag.decoded (st.getTag tag.appKey tag.tagName)

end RemoteTag

namespace TagsState

/-- The runtime after these subscriptions and no others. -/
def subscribeAll (st : TagsState) (subs : List (String × String × TagCallback)) : TagsState :=
  subs.foldl (fun st s => st.subscribeToTag s.1 s.2.1 s.2.2) { st with subscriptions := [] }

/-- The calls an update makes for a path. -/
def callsOf (st : TagsState) (ev : Event) (kp : KeyPath) : List (TagCallback × Option Json) :=
  ((st.onTagUpdate ev).2.filter fun c => c.1 = kp).map Prod.snd

/-! ## Subscriptions -/

/-- One callback a path, the last one registered. -/
theorem nodup_subscribeToTag {st : TagsState} (h : (st.subscriptions.map Prod.fst).Nodup)
    (appKey key : String) (cb : TagCallback) :
    ((st.subscribeToTag appKey key cb).subscriptions.map Prod.fst).Nodup := by
  have hkept : ((st.subscriptions.filter fun s => s.1 ≠ KeyPath.mkScoped appKey [key]).map
      Prod.fst).Nodup := h.sublist (List.filter_sublist.map Prod.fst)
  rw [subscribeToTag, List.map_append, List.nodup_append]
  refine ⟨hkept, List.nodup_singleton _, ?_⟩
  intro a ha b hb
  rw [List.map_singleton, List.mem_singleton] at hb
  obtain ⟨s, hs, rfl⟩ := List.mem_map.mp ha
  rw [hb]
  exact of_decide_eq_true (List.mem_filter.mp hs).2

theorem nodup_subscribeAll (st : TagsState) (subs : List (String × String × TagCallback)) :
    ((st.subscribeAll subs).subscriptions.map Prod.fst).Nodup := by
  have hfold : ∀ (subs : List (String × String × TagCallback)) (st : TagsState),
      (st.subscriptions.map Prod.fst).Nodup →
      ((subs.foldl (fun st s => st.subscribeToTag s.1 s.2.1 s.2.2) st).subscriptions.map
        Prod.fst).Nodup := by
    intro subs
    induction subs with
    | nil => exact fun _ h => h
    | cons s subs ih => exact fun st h => ih _ (nodup_subscribeToTag h s.1 s.2.1 s.2.2)
  exact hfold subs _ List.nodup_nil

theorem tagValues_subscribeAll (st : TagsState) (subs : List (String × String × TagCallback)) :
    (st.subscribeAll subs).tagValues = st.tagValues := by
  have hfold : ∀ (subs : List (String × String × TagCallback)) (st : TagsState),
      (subs.foldl (fun st s => st.subscribeToTag s.1 s.2.1 s.2.2) st).tagValues =
        st.tagValues := by
    intro subs
    induction subs with
    | nil => exact fun _ => rfl
    | cons s subs ih => exact fun st => ih _
  exact hfold subs _

/-- Of a list with one entry a path, those of a path it has are one. -/
theorem filter_eq_singleton {subs : List (KeyPath × TagCallback)} {kp : KeyPath}
    {cb : TagCallback} (hnd : (subs.map Prod.fst).Nodup) (h : (kp, cb) ∈ subs) :
    subs.filter (fun s => s.1 = kp) = [(kp, cb)] := by
  induction subs with
  | nil => cases h
  | cons s subs ih =>
    rw [List.map_cons, List.nodup_cons] at hnd
    rcases List.mem_cons.mp h with rfl | h
    · rw [List.filter_cons_of_pos (by exact decide_eq_true rfl), List.filter_eq_nil_iff.mpr]
      intro s hs heq
      exact hnd.1 (List.mem_map.mpr ⟨s, hs, of_decide_eq_true heq⟩)
    · rw [List.filter_cons_of_neg, ih hnd.2 h]
      intro heq
      exact hnd.1 (of_decide_eq_true heq ▸ List.mem_map_of_mem h)

/-! ## The calls of an update -/

/-- **What a subscriber is told.**  Its callback is called when the diff has something at
its path, with what the diff has there. -/
theorem callsOf_eq {st : TagsState} {ev : Event} {new : Json} (hev : ev.aggregateData = some new)
    {kp : KeyPath} {cb : TagCallback}
    (hone : st.subscriptions.filter (fun s => s.1 = kp) = [(kp, cb)]) (hp : kp.path ≠ []) :
    st.callsOf ev kp =
      ((generateDiff st.tagValues new false).lookup kp.path).toList.map
        fun v => (cb, some v) := by
  rw [callsOf, onTagUpdate, hev]
  simp only
  split
  · rename_i hempty
    rw [lookup_of_isEmptyObject hempty hp]
    rfl
  · rw [List.filter_map, List.map_map, List.filter_comm]
    have hmine : st.subscriptions.filter
        ((fun c : KeyPath × TagCallback × Option Json => decide (c.1 = kp)) ∘ fun s =>
          (s.1, s.2, s.1.lookup (generateDiff st.tagValues new false))) = [(kp, cb)] := hone
    rw [hmine]
    cases hd : (generateDiff st.tagValues new false).lookup kp.path with
    | none =>
      rw [List.filter_cons_of_neg, List.filter_nil]
      · rfl
      · rw [KeyPath.inValue, KeyPath.lookup, hd]
        exact Bool.false_ne_true
    | some v =>
      rw [List.filter_cons_of_pos, List.filter_nil]
      · simp only [List.map_cons, List.map_nil, Function.comp_apply, KeyPath.lookup, hd,
          Option.toList_some]
      · rw [KeyPath.inValue, KeyPath.lookup, hd]
        rfl

end TagsState

/-! ## Exact subscriptions -/

/-- The values at a path differ for Python, or only one of them is there. -/
def ChangesAt (old new : Json) (p : List String) : Prop :=
  ¬ Option.Rel (fun v w => pythonJsonEq v w = true) (old.lookup p) (new.lookup p)

/-- The callback of a path is called once when the path changes and not otherwise, and a
typed subscription is given what reading the tag of the new aggregate returns. -/
structure Exact (st : TagsState) (ev : Event) (new : Json) (appKey key : String)
    (cb : TagCallback) : Prop where
  called_iff : st.callsOf ev (KeyPath.mkScoped appKey [key]) ≠ [] ↔
    ChangesAt st.tagValues new (KeyPath.mkScoped appKey [key]).path
  once : (st.callsOf ev (KeyPath.mkScoped appKey [key])).length ≤ 1
  own : ∀ c ∈ st.callsOf ev (KeyPath.mkScoped appKey [key]), c.1 = cb
  delivered : ∀ c ∈ st.callsOf ev (KeyPath.mkScoped appKey [key]),
    ∀ (T : Type) [TagValue T] (default : Option Json),
      (⟨appKey, key, default⟩ : RemoteTag T).decoded c.2 =
        (⟨appKey, key, default⟩ : RemoteTag T).get { TagsState.default with tagValues := new }

/-- The diff shows the change at the path: nothing is gone from it, and an object there,
unless it takes the place of a value above it, is the old one or new as a whole. -/
structure Shown (old new : Json) (p : List String) : Prop where
  kept : new.lookup p = none → old.lookup p = none
  whole : ∀ o, new.lookup p = some (.object o) → ¬ old.Blocks p →
    old.holds p (.object o) = true ∨ Fresh ((old.lookup p).getD (.object .empty)) (.object o)

/-- Reading a tag right after an update sees the new aggregate. -/
theorem getTag_of_tagValues (new : Json) (appKey key : String) :
    ({ TagsState.default with tagValues := new } : TagsState).getTag appKey key =
      new.lookup (KeyPath.mkScoped appKey [key]).path := by
  obtain ⟨k, p, hp⟩ := List.exists_cons_of_ne_nil (KeyPath.mkScoped_path_ne_nil appKey key)
  rw [TagsState.getTag, KeyPath.lookup, TagsState.current, hp]
  exact lookup_applyDiff_of_misses (misses_empty k p) new false

/-- A value of the old tree above the path makes the diff show it all. -/
theorem shown_of_blocks {old : Json} {p : List String} (h : old.Blocks p) (new : Json) :
    Shown old new p where
  kept _ := lookup_of_blocks h
  whole _ _ hnot := absurd h hnot

theorem rel_lookup_some_iff {old v : Json} {p : List String} :
    Option.Rel (fun v w => pythonJsonEq v w = true) (old.lookup p) (some v) ↔
      old.holds p v = true := by
  rw [holds_iff, rel_some_right]

/-- A value is held, or new where it is. -/
theorem holds_or_fresh_leaf {old v : Json} (hv : v.isObject = false) (p : List String) :
    old.holds p v = true ∨ Fresh ((old.lookup p).getD (.object .empty)) v := by
  rw [fresh_leaf_iff hv, holds]
  cases old.lookup p with
  | none => exact .inr (pythonJsonEq_object_leaf hv .empty)
  | some c =>
    rw [Option.any_some, Option.getD_some]
    cases pythonJsonEq c v with
    | true => exact .inl rfl
    | false => exact .inr rfl

/-- **The diff at a path that is shown.**  It has the new value when the path changed, and
nothing otherwise; at a path that is not shown it does not. -/
theorem shown_iff {old new : Json} {p : List String} (hp : p ≠ []) :
    Shown old new p ↔
      (ChangesAt old new p → ∃ v, new.lookup p = some v ∧
        (generateDiff old new false).lookup p = some v) ∧
      (¬ ChangesAt old new p → (generateDiff old new false).lookup p = none) := by
  by_cases hb : old.Blocks p
  · refine iff_of_true (shown_of_blocks hb new) ?_
    rw [lookup_generateDiff_of_blocks hb, ChangesAt, lookup_of_blocks hb, not_not]
    cases new.lookup p with
    | none => exact ⟨fun h => absurd .none h, fun _ => rfl⟩
    | some v => exact ⟨fun _ => ⟨v, rfl, rfl⟩, fun h => by cases h⟩
  · rw [lookup_generateDiff hb hp, ChangesAt, not_not]
    cases hn : new.lookup p with
    | none =>
      rw [Option.bind_none]
      constructor
      · intro h
        refine ⟨fun hne => absurd ?_ hne, fun _ => rfl⟩
        rw [h.kept hn]
        exact .none
      · rintro ⟨hchanged, -⟩
        refine ⟨fun _ => ?_, fun o ho => ?_⟩
        · by_contra hold
          obtain ⟨v, hv, -⟩ := hchanged fun hrel => hold (rel_none_right.mp hrel)
          cases hv
        · rw [hn] at ho
          cases ho
    | some v =>
      have hshown : Shown old new p ↔
          old.holds p v = true ∨ Fresh ((old.lookup p).getD (.object .empty)) v := by
        constructor
        · intro h
          by_cases hv : v.isObject = true
          · obtain ⟨o, rfl⟩ := exists_of_isObject hv
            exact h.whole o hn hb
          · exact holds_or_fresh_leaf ((Bool.not_eq_true _).mp hv) p
        · intro h
          refine ⟨fun hnone => ?_, fun o ho _ => ?_⟩
          · rw [hn] at hnone
            cases hnone
          · rw [hn, Option.some.injEq] at ho
            exact ho ▸ h
      rw [hshown, rel_lookup_some_iff, Option.bind_some]
      have hsame : old.holds p v = true → diffEntry false v (old.lookup p) = none := by
        intro hheld
        obtain ⟨c, hc, hcv⟩ := holds_iff.mp hheld
        rw [hc]
        exact diffEntry_of_pythonJsonEq hcv
      constructor
      · rintro (hheld | hfresh)
        · exact ⟨fun hne => absurd hheld hne, fun _ => hsame hheld⟩
        · have hentry := (diffEntry_eq_self_iff v _).mpr hfresh
          refine ⟨fun _ => ⟨v, rfl, hentry⟩, fun hheld => ?_⟩
          rw [hsame hheld] at hentry
          cases hentry
      · rintro ⟨hchanged, -⟩
        by_cases hheld : old.holds p v = true
        · exact .inl hheld
        · obtain ⟨w, hw, hentry⟩ := hchanged hheld
          cases hw
          exact .inr ((diffEntry_eq_self_iff v _).mp hentry)

/-- What a diff has at a path is of a value the new tree has there, and is that value
unless it is an object. -/
theorem exists_of_lookup_generateDiff {old new d : Json} {p : List String} (hp : p ≠ [])
    (h : (generateDiff old new false).lookup p = some d) :
    ∃ v, new.lookup p = some v ∧ (v.isObject = false → d = v) := by
  by_cases hb : old.Blocks p
  · rw [lookup_generateDiff_of_blocks hb] at h
    exact ⟨d, h, fun _ => rfl⟩
  · rw [lookup_generateDiff hb hp] at h
    obtain ⟨v, hv, hentry⟩ := Option.bind_eq_some_iff.mp h
    exact ⟨v, hv, fun hleaf => eq_of_diffEntry_leaf hleaf hentry⟩

/-- Read as arbitrary JSON without a default, only an object gives the object. -/
theorem eq_object_of_decoded {appKey key : String} {d : Json} {o : IndexMap String Json}
    (h : (⟨appKey, key, none⟩ : RemoteTag Json).decoded (some d) = some (.object o)) :
    d = .object o := by
  cases d with
  | null => cases h
  | _ => exact Option.some.inj h

/-- **When a subscription is exact.**  Whatever else is subscribed, an update tells the
subscriber of a tag of its change and of the new value exactly when the diff shows it. -/
theorem onTagUpdate_exact_iff (st : TagsState) (subs : List (String × String × TagCallback))
    (appKey key : String) (cb : TagCallback)
    (hsub : (KeyPath.mkScoped appKey [key], cb) ∈ (st.subscribeAll subs).subscriptions)
    (ev : Event) (new : Json) (hev : ev.aggregateData = some new) :
    Exact (st.subscribeAll subs) ev new appKey key cb ↔
      Shown st.tagValues new (KeyPath.mkScoped appKey [key]).path := by
  have hp := KeyPath.mkScoped_path_ne_nil appKey key
  have hcalls := TagsState.callsOf_eq hev
    (TagsState.filter_eq_singleton (TagsState.nodup_subscribeAll st subs) hsub) hp
  have hcache := TagsState.tagValues_subscribeAll st subs
  rw [hcache] at hcalls
  rw [shown_iff hp]
  constructor
  · intro h
    have hcalled := h.called_iff
    rw [hcache] at hcalled
    have hdelivered := h.delivered
    rw [hcalls] at hcalled hdelivered
    cases hd : (generateDiff st.tagValues new false).lookup (KeyPath.mkScoped appKey [key]).path with
    | none =>
      rw [hd] at hcalled
      exact ⟨fun hch => absurd rfl (hcalled.mpr hch), fun _ => rfl⟩
    | some d =>
      rw [hd] at hcalled hdelivered
      refine ⟨fun hch => ?_, fun hsame => absurd (hcalled.mp (List.cons_ne_nil _ _)) hsame⟩
      -- read as arbitrary JSON, what is delivered is the new value itself
      have hjson := hdelivered (cb, some d) (List.mem_singleton.mpr rfl) Json none
      obtain ⟨v, hv, hleaf⟩ := exists_of_lookup_generateDiff hp hd
      rw [RemoteTag.get, getTag_of_tagValues, hv] at hjson
      refine ⟨v, hv, ?_⟩
      by_cases hobj : v.isObject = true
      · obtain ⟨o, rfl⟩ := exists_of_isObject hobj
        exact congrArg some (eq_object_of_decoded hjson)
      · exact congrArg some (hleaf ((Bool.not_eq_true _).mp hobj))
  · rintro ⟨hchanged, hsame⟩
    have hcases : (ChangesAt st.tagValues new (KeyPath.mkScoped appKey [key]).path ∧ ∃ v,
        new.lookup (KeyPath.mkScoped appKey [key]).path = some v ∧
          (st.subscribeAll subs).callsOf ev (KeyPath.mkScoped appKey [key]) = [(cb, some v)]) ∨
        (¬ ChangesAt st.tagValues new (KeyPath.mkScoped appKey [key]).path ∧
          (st.subscribeAll subs).callsOf ev (KeyPath.mkScoped appKey [key]) = []) := by
      rw [hcalls]
      by_cases hch : ChangesAt st.tagValues new (KeyPath.mkScoped appKey [key]).path
      · obtain ⟨v, hv, hd⟩ := hchanged hch
        exact .inl ⟨hch, v, hv, by rw [hd]; rfl⟩
      · exact .inr ⟨hch, by rw [hsame hch]; rfl⟩
    rcases hcases with ⟨hch, v, hv, hcall⟩ | ⟨hch, hcall⟩
    · constructor
      · rw [hcall, hcache]
        exact iff_of_true (List.cons_ne_nil _ _) hch
      · rw [hcall]
        exact le_refl 1
      · rw [hcall]
        intro c hc
        rw [List.mem_singleton.mp hc]
      · rw [hcall]
        intro c hc T _ default
        rw [List.mem_singleton.mp hc, RemoteTag.get, getTag_of_tagValues, hv]
    · constructor
      · rw [hcall, hcache]
        exact iff_of_false (fun hne => hne rfl) hch
      · rw [hcall]
        exact Nat.zero_le 1
      · rw [hcall]
        intro c hc
        cases hc
      · rw [hcall]
        intro c hc
        cases hc

/-- A level that changes is shown, whatever is subscribed beside it. -/
theorem onTagUpdate_exact_iff_of_level :
    let level (n : ℤ) (range : -2 ^ 63 ≤ n ∧ n < 2 ^ 64) : Json :=
      .ofList [("pump", .ofList [("level", .ofInt n range)])]
    let st := { TagsState.default with tagValues := level 1 (by decide) }
    let subs := [("pump", "mode", 0), ("pump", "level", 1)]
    let ev : Event := ⟨Event.AGGREGATE_UPDATE, "tag_values",
      .ofList [("aggregate", .ofList [("data", level 2 (by decide))])]⟩
    (KeyPath.mkScoped "pump" ["level"], 1) ∈ (st.subscribeAll subs).subscriptions ∧
      (Exact (st.subscribeAll subs) ev (level 2 (by decide)) "pump" "level" 1 ↔
        Shown st.tagValues (level 2 (by decide)) (KeyPath.mkScoped "pump" ["level"]).path) := by
  intro level st subs ev
  have hsub : (KeyPath.mkScoped "pump" ["level"], 1) ∈ (st.subscribeAll subs).subscriptions := by
    decide
  exact ⟨hsub, onTagUpdate_exact_iff st subs "pump" "level" 1 hsub ev _ rfl⟩

/-- A pump that loses its level: the value goes, and the subscriber is not told. -/
theorem vanished_level_not_exact :
    let old : Json := .ofList [("pump", .ofList [("level", .bool true)])]
    let new : Json := .ofList [("pump", .object .empty)]
    let st := ({ TagsState.default with tagValues := old } : TagsState).subscribeAll
      [("pump", "level", 0)]
    let ev : Event := ⟨Event.AGGREGATE_UPDATE, "tag_values",
      .ofList [("aggregate", .ofList [("data", new)])]⟩
    ev.aggregateData = some new ∧ st.callsOf ev (KeyPath.mkScoped "pump" ["level"]) = [] ∧
      ¬ Exact st ev new "pump" "level" 0 := by
  intro old new st ev
  have hcalls : st.callsOf ev (KeyPath.mkScoped "pump" ["level"]) = [] := by rfl
  refine ⟨rfl, hcalls, fun h => h.called_iff.mpr ?_ hcalls⟩
  have hold : st.tagValues.lookup (KeyPath.mkScoped "pump" ["level"]).path = some (.bool true) := by
    rfl
  have hnew : new.lookup (KeyPath.mkScoped "pump" ["level"]).path = none := by rfl
  rw [ChangesAt, hold, hnew]
  intro hrel
  cases hrel

end Doover
