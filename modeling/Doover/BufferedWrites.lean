import Doover.Merge
import Doover.TagsRuntime
import Doover.TagWrites

/-! # Buffered writes

Buffered writes are merged into one payload, and a reader sees the cached values with the
payload over them.  The same writes one by one would be merged into the values in turn.
The two differ where merging is not associative: a write that puts something other than an
object at a path ends what was there, but an object written over it afterwards leaves only
the object in the payload, and that is merged into what the values still hold.

At a path that is never rewritten like this the question is handed down to the keys, and at
one that is, both sides have the payload's value, so the values must add nothing to it.
That is the induction of `beq_applyDiff_payload_iff`, on the values.
-/

namespace Doover
open Json

/-- The writes merged into `data`, one by one. -/
def applyAll (data : Json) (writes : List Json) : Json :=
  writes.foldl (fun data tags => applyDiff data tags false) data

/-- The writes merged into one. -/
def payload (writes : List Json) : Json := applyAll emptyObject writes

/-- Some write puts something other than an object at the path. -/
def Rewrites (writes : List Json) (q : List String) : Prop :=
  ∃ w ∈ writes, ∃ v, w.valueAt q = some v

/-- Where a write put something other than an object, an object of the payload hides all that
the values have there. -/
def NothingResurfaces (data : Json) (writes : List Json) : Prop :=
  ∀ q, Rewrites writes q → ∀ m o, data.lookup q = some (.object m) →
    (payload writes).lookup q = some (.object o) →
      (applyDiff (.object m) (.object o) false == .object o) = true

/-! ## Lookups -/

/-- At a path that both have, the diff is applied to what is there. -/
theorem lookup_applyDiff_of_lookup {data diff x y : Json} {q : List String}
    (hdata : data.lookup q = some x) (hdiff : diff.lookup q = some y) :
    (applyDiff data diff false).lookup q = some (applyDiff x y false) := by
  rw [lookup_applyDiff_some hdiff, hdata, applyEntry_some]

/-- Equal values are equal at every path. -/
theorem exists_lookup_of_beq {i j x : Json} {q : List String} (h : beq i j = true)
    (hx : i.lookup q = some x) : ∃ y, j.lookup q = some y ∧ beq x y = true := by
  induction q generalizing i j with
  | nil =>
    rw [lookup_nil, Option.some.injEq] at hx
    exact ⟨j, lookup_nil j, hx ▸ h⟩
  | cons k q ih =>
    cases i with
    | object m =>
      have hobj := isObject_eq_of_beq h
      obtain ⟨n, rfl⟩ := exists_of_isObject hobj.symm
      rw [lookup_object_cons] at hx ⊢
      obtain ⟨v, hv, hvx⟩ := Option.bind_eq_some_iff.mp hx
      have hk := beq_object_iff.mp h k
      rw [hv] at hk
      obtain ⟨w, hw, heq⟩ := rel_some_left.mp hk
      rw [hw]
      exact ih heq hvx
    | _ => cases isObject_of_lookup_cons hx

/-! ## All writes at one key -/

theorem applyAll_cons (data tags : Json) (writes : List Json) :
    applyAll data (tags :: writes) = applyAll (applyDiff data tags false) writes := rfl

theorem isObject_applyAll {writes : List Json} (h : ∀ w ∈ writes, w.isObject = true) {data : Json}
    (hdata : data.isObject = true) : (applyAll data writes).isObject = true := by
  induction writes generalizing data with
  | nil => exact hdata
  | cons w writes ih =>
    exact ih (fun w' hw => h w' (List.mem_cons_of_mem w hw))
      (isObject_applyDiff (h w List.mem_cons_self) data false)

/-- The writes that reach a key, on the key's value. -/
theorem foldl_applyEntry_some (c : Json) (writes : List Json) :
    writes.foldl (fun x w => applyEntry false w x) (some c) = some (applyAll c writes) := by
  induction writes generalizing c with
  | nil => rfl
  | cons w writes ih => rw [List.foldl_cons, applyEntry_some, ih, applyAll_cons]

theorem foldl_applyEntry_none {writes : List Json} (h : writes ≠ []) :
    writes.foldl (fun x w => applyEntry false w x) none = some (payload writes) := by
  cases writes with
  | nil => exact absurd rfl h
  | cons w writes =>
    rw [List.foldl_cons, applyEntry_none, foldl_applyEntry_some, payload, applyAll_cons,
      emptyObject, applyDiff_empty]

/-- A key of all the writes: those that reach it, applied to its value. -/
theorem get?_applyAll {writes : List Json} (h : ∀ w ∈ writes, w.isObject = true)
    (m : IndexMap String Json) (k : String) :
    (applyAll (.object m) writes).get? k =
      (writes.filterMap fun w => w.get? k).foldl (fun x w => applyEntry false w x) (m.get? k) := by
  induction writes generalizing m with
  | nil => rfl
  | cons w writes ih =>
    obtain ⟨d, rfl⟩ := exists_of_isObject (h w List.mem_cons_self)
    obtain ⟨r, hr, hrk⟩ := applyDiff_object m d false
    rw [applyAll_cons, hr, ih (fun w' hw => h w' (List.mem_cons_of_mem _ hw)), hrk k]
    cases hd : d.get? k with
    | none => rw [List.filterMap_cons_none (by exact hd)]
    | some v => rw [List.filterMap_cons_some (by exact hd), List.foldl_cons]

/-- A write that is no object ends what was there before it. -/
theorem applyAll_of_leaf {writes : List Json} {w : Json} (hw : w ∈ writes)
    (hobj : w.isObject = false) (data : Json) : applyAll data writes = payload writes := by
  have hall : ∀ data data', applyAll data writes = applyAll data' writes := by
    induction writes with
    | nil => cases hw
    | cons w' writes ih =>
      intro data data'
      rw [applyAll_cons, applyAll_cons]
      rcases List.mem_cons.mp hw with rfl | hw
      · rw [applyDiff_of_not_object hobj, applyDiff_of_not_object hobj]
      · exact ih hw _ _
  exact hall data emptyObject

/-- Objects that are written over something else are all there is. -/
theorem applyAll_from_leaf {data : Json} (hdata : data.isObject = false) {writes : List Json}
    (hne : writes ≠ []) : applyAll data writes = payload writes := by
  cases writes with
  | nil => exact absurd rfl hne
  | cons w writes =>
    rw [payload, applyAll_cons, applyAll_cons, emptyObject, applyDiff_empty]
    cases w with
    | object d =>
      cases data with
      | object m => cases hdata
      | _ => rfl
    | _ => rw [applyDiff_of_not_object rfl]

theorem rewrites_cons_iff {writes : List Json} {k : String} {q : List String} :
    Rewrites writes (k :: q) ↔ Rewrites (writes.filterMap fun w => w.get? k) q := by
  have hbelow : ∀ w : Json, ∀ v, w.valueAt (k :: q) = some v ↔
      ∃ c, w.get? k = some c ∧ c.valueAt q = some v := by
    intro w v
    rw [valueAt_eq_some, lookup_cons, Option.bind_eq_some_iff]
    constructor
    · rintro ⟨⟨c, hc, hcv⟩, hv⟩
      exact ⟨c, hc, valueAt_eq_some.mpr ⟨hcv, hv⟩⟩
    · rintro ⟨c, hc, hcv⟩
      obtain ⟨hl, hv⟩ := valueAt_eq_some.mp hcv
      exact ⟨⟨c, hc, hl⟩, hv⟩
  constructor
  · rintro ⟨w, hw, v, hv⟩
    obtain ⟨c, hc, hcv⟩ := (hbelow w v).mp hv
    exact ⟨c, List.mem_filterMap.mpr ⟨w, hw, hc⟩, v, hcv⟩
  · rintro ⟨c, hc, v, hcv⟩
    obtain ⟨w, hw, hwc⟩ := List.mem_filterMap.mp hc
    exact ⟨w, hw, v, (hbelow w v).mpr ⟨c, hwc, hcv⟩⟩

/-! ## The payload over the values -/

/-- Where the payload is all there is, the values must add nothing to it. -/
theorem beq_applyDiff_payload_of_leaf {writes : List Json} {w : Json} (hw : w ∈ writes)
    (hobj : w.isObject = false) (data : Json) :
    beq (applyDiff data (payload writes) false) (payload writes) = true ↔
      NothingResurfaces data writes := by
  constructor
  · intro h q _ m o hm ho
    obtain ⟨y, hy, heq⟩ := exists_lookup_of_beq h (lookup_applyDiff_of_lookup hm ho)
    rw [ho, Option.some.injEq] at hy
    exact hy ▸ heq
  · intro h
    have hroot := h [] ⟨w, hw, w, valueAt_eq_some.mpr ⟨lookup_nil w, hobj⟩⟩
    rw [lookup_nil, lookup_nil] at hroot
    cases hp : payload writes with
    | object o =>
      cases data with
      | object m => exact hroot m o rfl (congrArg some hp)
      | _ => exact beq_refl _
    | _ =>
      rw [applyDiff_of_not_object rfl]
      exact beq_refl _

/-- **The payload over the values.**  It shows what the writes show one by one exactly when
nothing resurfaces. -/
theorem beq_applyDiff_payload_iff (data : Json) {writes : List Json}
    (h : writes ≠ [] ∨ data.isObject = true) :
    beq (applyDiff data (payload writes) false) (applyAll data writes) = true ↔
      NothingResurfaces data writes := by
  induction data generalizing writes with
  | object m ih =>
    by_cases hleaf : ∃ w ∈ writes, w.isObject = false
    · obtain ⟨w, hw, hobj⟩ := hleaf
      rw [applyAll_of_leaf hw hobj]
      exact beq_applyDiff_payload_of_leaf hw hobj _
    · have hobjs : ∀ w ∈ writes, w.isObject = true := by
        intro w hw
        by_contra hobj
        exact hleaf ⟨w, hw, (Bool.not_eq_true _).mp hobj⟩
      have hpobj : (applyAll emptyObject writes).isObject = true := isObject_applyAll hobjs rfl
      have hsobj : (applyAll (.object m) writes).isObject = true := isObject_applyAll hobjs rfl
      obtain ⟨p, hp⟩ := exists_of_isObject hpobj
      obtain ⟨s, hs⟩ := exists_of_isObject hsobj
      obtain ⟨r, hr, hrk⟩ := applyDiff_object m p false
      have hpay : payload writes = .object p := hp
      rw [hpay, hr, hs, beq_object_iff]
      have hpk : ∀ k, p.get? k = (writes.filterMap fun w => w.get? k).foldl
          (fun x w => applyEntry false w x) none := by
        intro k
        rw [← get?_object p, ← hp, emptyObject, get?_applyAll hobjs, IndexMap.get?_empty]
      have hsk : ∀ k, s.get? k = (writes.filterMap fun w => w.get? k).foldl
          (fun x w => applyEntry false w x) (m.get? k) := by
        intro k
        rw [← get?_object s, ← hs, get?_applyAll hobjs]
      -- nothing resurfaces when nothing does below each key
      have hkeys : NothingResurfaces (.object m) writes ↔ ∀ k b, m.get? k = some b →
          (writes.filterMap fun w => w.get? k) ≠ [] →
            NothingResurfaces b (writes.filterMap fun w => w.get? k) := by
        have hbelow : ∀ k q, (writes.filterMap fun w => w.get? k) ≠ [] →
            (payload writes).lookup (k :: q) =
              (payload (writes.filterMap fun w => w.get? k)).lookup q := by
          intro k q hne
          rw [hpay, lookup_object_cons, hpk k, foldl_applyEntry_none hne, Option.bind_some]
        constructor
        · intro hno k b hb hne q hq m' o hm' ho
          refine hno (k :: q) (rewrites_cons_iff.mpr hq) m' o ?_ ((hbelow k q hne).trans ho)
          rw [lookup_object_cons, hb, Option.bind_some, hm']
        · intro hno q hq m' o hm' ho
          cases q with
          | nil =>
            obtain ⟨w, hw, v, hv⟩ := hq
            obtain ⟨d, rfl⟩ := exists_of_isObject (hobjs w hw)
            exact absurd rfl (ne_nil_of_valueAt hv)
          | cons k q =>
            rw [rewrites_cons_iff] at hq
            have hne : (writes.filterMap fun w => w.get? k) ≠ [] := by
              obtain ⟨w, hw, -⟩ := hq
              exact List.ne_nil_of_mem hw
            rw [lookup_object_cons] at hm'
            obtain ⟨b, hb, hbm⟩ := Option.bind_eq_some_iff.mp hm'
            exact hno k b hb hne q hq m' o hbm ((hbelow k q hne).symm.trans ho)
      rw [hkeys]
      refine forall_congr' fun k => ?_
      rw [hrk k, hpk k, hsk k]
      by_cases hne : (writes.filterMap fun w => w.get? k) = []
      · rw [hne]
        refine iff_of_true ?_ fun _ _ h => absurd rfl h
        cases m.get? k with
        | none => exact .none
        | some b => exact .some (beq_refl b)
      · rw [foldl_applyEntry_none hne]
        cases hm : m.get? k with
        | none =>
          rw [foldl_applyEntry_none hne]
          refine iff_of_true ?_ fun b hb => by cases hb
          simp only [applyEntry_none]
          exact .some (beq_refl _)
        | some b =>
          rw [foldl_applyEntry_some]
          simp only [applyEntry_some]
          rw [Option.rel_some_some, ih k b hm (.inl hne)]
          exact ⟨fun h b' hb' _ => Option.some.inj hb' ▸ h, fun h => h b rfl hne⟩
  | _ =>
    have hne : writes ≠ [] := h.resolve_right Bool.false_ne_true
    rw [applyAll_from_leaf rfl hne]
    refine iff_of_true ?_ ?_
    · cases hp : payload writes with
      | object o => exact beq_refl _
      | _ => exact beq_refl _
    · intro q _ m o hm
      cases isObject_of_lookup_object hm

/-! ## The tag manager -/

/-- Calls of `set_nested_tags` that buffer whatever they are given, each with its `log`. -/
def bufferWrites (st : TagsState) (writes : List (IndexMap String Json × Bool)) : TagsState :=
  writes.foldl (fun st w => (st.setNestedTags (.object w.1) ⟨false, false, w.2⟩).1) st

theorem bufferWrites_stores (st : TagsState) (writes : List (IndexMap String Json × Bool)) :
    (bufferWrites st writes).tagValues = st.tagValues ∧
      (bufferWrites st writes).pendingAggregate =
        applyAll st.pendingAggregate (writes.map fun w => .object w.1) ∧
      (bufferWrites st writes).dirty = (st.dirty || !writes.isEmpty) := by
  induction writes generalizing st with
  | nil => exact ⟨rfl, rfl, (Bool.or_false _).symm⟩
  | cons w writes ih =>
    obtain ⟨hvalues, hpending, hdirty⟩ := ih (st.setNestedTags (.object w.1) ⟨false, false, w.2⟩).1
    have hkept : st.suppresses (.object w.1) ⟨false, false, w.2⟩ = false := rfl
    refine ⟨hvalues.trans (TagsState.setNestedTags_tagValues ..), hpending.trans ?_,
      hdirty.trans ?_⟩
    · rw [TagsState.setNestedTags_pendingAggregate, hkept, if_neg Bool.false_ne_true]
      rfl
    · rw [TagsState.setNestedTags_dirty, hkept]
      simp

/-- The agent's aggregate after the end-of-loop flush. -/
def commit (agg : Json) (st : TagsState) : Json :=
  match st.flushTags.2 with
  | some data => merge agg data
  | none => agg

/-- **When buffering is transparent.**  Buffer any writes over any cached values.  What a
reader sees is what the writes make of the values one by one, and so is what one commit
leaves the agent with, exactly when nothing resurfaces. -/
theorem buffering_transparent_iff (st : TagsState) (values : IndexMap String Json)
    (writes : List (IndexMap String Json × Bool)) :
    let st' := bufferWrites
      { st with tagValues := .object values, pendingAggregate := emptyObject } writes
    ((st'.current ==
        writes.foldl (fun v w => applyDiff v (.object w.1) false) (.object values)) = true ↔
      NothingResurfaces (.object values) (writes.map fun w => .object w.1)) ∧
    ((commit (.object values) st' ==
        writes.foldl (fun agg w => merge agg (.object w.1)) (.object values)) = true ↔
      NothingResurfaces (.object values) (writes.map fun w => .object w.1)) := by
  intro st'
  obtain ⟨hvalues, hpending, hdirty⟩ := bufferWrites_stores
    { st with tagValues := .object values, pendingAggregate := emptyObject } writes
  have hfold : writes.foldl (fun v w => applyDiff v (.object w.1) false) (.object values) =
      applyAll (.object values) (writes.map fun w => .object w.1) := by
    rw [applyAll, List.foldl_map]
  have hiff : beq (applyDiff (.object values) (payload (writes.map fun w => .object w.1)) false)
      (applyAll (.object values) (writes.map fun w => .object w.1)) = true ↔
        NothingResurfaces (.object values) (writes.map fun w => .object w.1) :=
    beq_applyDiff_payload_iff (.object values) (.inr rfl)
  have hcurrent : st'.current =
      applyDiff (.object values) (payload (writes.map fun w => .object w.1)) false := by
    rw [TagsState.current, hvalues, hpending]
    rfl
  have hcommit : commit (.object values) st' =
      applyDiff (.object values) (payload (writes.map fun w => .object w.1)) false := by
    rw [commit, TagsState.flushTags]
    cases hd : st'.dirty with
    | true =>
      simp only [Bool.not_true, Bool.false_eq_true, if_false]
      rw [merge_eq_applyDiff, hpending]
      rfl
    | false =>
      -- without a write there is no payload
      have hnil : writes = [] := by
        rw [hdirty, Bool.or_eq_false_iff] at hd
        cases writes with
        | nil => rfl
        | cons w writes => cases hd.2
      subst hnil
      rfl
  simp only [merge_eq_applyDiff]
  rw [hcurrent, hcommit, hfold]
  exact ⟨hiff, hiff⟩

/-- A tag that held an object is cleared and given another object before the flush: the old
object shows again. -/
theorem cleared_object_resurfaces :
    ¬ ∀ (values : IndexMap String Json) (writes : List (IndexMap String Json × Bool)),
      ((bufferWrites { TagsState.default with tagValues := .object values } writes).current ==
        writes.foldl (fun v w => applyDiff v (.object w.1) false) (.object values)) = true := by
  intro h
  have hsame := h (.ofList [("limits", Json.ofList [("low", .bool true)])])
    [(.ofList [("limits", .null)], false),
      (.ofList [("limits", Json.ofList [("high", .bool true)])], false)]
  revert hsame
  decide

end Doover
