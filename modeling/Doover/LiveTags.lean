import Doover.DiffLookup
import Doover.TagWrites
import Doover.TagsRuntime

/-! # The tags that somebody watches

A live tag is streamed while some user has it in live mode.  The message is built up tag by
tag, each value being merged into it at its path, so a tag below another adds nothing and none
takes anything away: what comes out is the part of the cached values that the watched tags
cover, and no more (`streams_open_tags`).
-/

namespace Doover
open Json

namespace KeyPath

/-- A scoped tag is named after its app, a global one by itself. -/
theorem qualifiedName_mkScoped (appKey key : String) :
    (mkScoped appKey [key]).qualifiedName =
      if appKey.isEmpty then key else appKey ++ "." ++ key := by
  rw [qualifiedName, mkScoped]
  split <;> rfl

end KeyPath

namespace TagsState

/-! ## Who is watching -/

def BUCKETS : List String := ["agent_open", "group_open", "app_open", "live_tag_open"]

/-- Whether any user has a claim on this agent. -/
def isBeingObserved (st : TagsState) (now : ℚ) : Bool :=
  BUCKETS.any fun b => !(freshEntries st.uiSub b now).isEmpty

def isAgentOpen (st : TagsState) (now : ℚ) : Bool := !(freshEntries st.uiSub "agent_open" now).isEmpty

def isGroupOpen (st : TagsState) (now : ℚ) : Bool := !(freshEntries st.uiSub "group_open" now).isEmpty

/-- Whether some user has the app expanded. -/
def isAppOpen (st : TagsState) (appKey : String) (now : ℚ) : Bool :=
  if appKey.isEmpty then false
  else (freshEntries st.uiSub "app_open" now).any fun entry =>
    ((entry.get? "apps").bind asArray).any fun apps => apps.any fun a => a.asStr == some appKey

/-- Whether some user has the tag in live mode. -/
def isLiveTagOpen (st : TagsState) (ownKey tagName : String) (appKey : Option String) (now : ℚ) :
    Bool :=
  let appKey := appKey.getD ownKey
  let qualified := if appKey.isEmpty then tagName else appKey ++ "." ++ tagName
  (liveTagsOpened st.uiSub now).contains qualified

/-- Whoever has something open observes the agent. -/
theorem isBeingObserved_of_mem {st : TagsState} {b : String} {entry : Json} {now : ℚ}
    (hb : b ∈ BUCKETS) (h : entry ∈ freshEntries st.uiSub b now) :
    st.isBeingObserved now = true := by
  refine List.any_eq_true.mpr ⟨b, hb, ?_⟩
  rw [Bool.not_eq_true', List.isEmpty_eq_false_iff]
  exact List.ne_nil_of_mem h

theorem isBeingObserved_of_isAppOpen {st : TagsState} {appKey : String} {now : ℚ}
    (h : st.isAppOpen appKey now = true) : st.isBeingObserved now = true := by
  rw [isAppOpen] at h
  split at h
  · cases h
  · obtain ⟨entry, hentry, -⟩ := List.any_eq_true.mp h
    exact isBeingObserved_of_mem (by decide) hentry

theorem isBeingObserved_of_isLiveTagOpen {st : TagsState} {ownKey tagName : String}
    {appKey : Option String} {now : ℚ} (h : st.isLiveTagOpen ownKey tagName appKey now = true) :
    st.isBeingObserved now = true := by
  rw [isLiveTagOpen, List.contains_iff_mem, liveTagsOpened, List.mem_flatMap] at h
  obtain ⟨entry, hentry, -⟩ := h
  exact isBeingObserved_of_mem (by decide) hentry

def TAG_CLOUD_MAX_AGE : ℚ := 60 * 15
def TAG_OBSERVED_MAX_AGE : ℚ := 3

/-- How old the aggregate may become, in seconds, before the cloud is told. -/
def maxAgeSecs (st : TagsState) (appKey : String) (now : ℚ) : ℚ :=
  if st.isAppOpen appKey now then TAG_OBSERVED_MAX_AGE else TAG_CLOUD_MAX_AGE

end TagsState

namespace LiveTags
variable {st : TagsState} {now : ℚ}

/-- Some user has the tag of this path in live mode. -/
def Watched (st : TagsState) (now : ℚ) (kp : KeyPath) : Prop :=
  kp.qualifiedName ∈ TagsState.liveTagsOpened st.uiSub now

instance (st : TagsState) (now : ℚ) : DecidablePred (Watched st now) := fun kp =>
  inferInstanceAs (Decidable (kp.qualifiedName ∈ TagsState.liveTagsOpened st.uiSub now))

/-- A tag is watched when its app is told so. -/
theorem isLiveTagOpen_iff (st : TagsState) (ownKey tagName : String) (appKey : Option String)
    (now : ℚ) :
    st.isLiveTagOpen ownKey tagName appKey now = true ↔
      Watched st now (.mkScoped (appKey.getD ownKey) [tagName]) := by
  rw [Watched, KeyPath.qualifiedName_mkScoped, TagsState.isLiveTagOpen, List.contains_iff_mem]

/-! ## One tag after the other -/

/-- What one live tag adds to the message. -/
def add (st : TagsState) (now : ℚ) (payload : Json) (kp : KeyPath) : Json :=
  if Watched st now kp then
    (kp.lookup st.current).elim payload fun value => applyDiff payload (kp.construct value) false
  else payload

/-- The message is what the live tags add, one after the other, if that is anything. -/
theorem flushLiveTags_eq (st : TagsState) (now : ℚ) :
    st.flushLiveTags now =
      if isEmptyObject (st.liveTagKeys.foldl (add st now) emptyObject) then none
      else some (st.liveTagKeys.foldl (add st now) emptyObject) := by
  rw [TagsState.flushLiveTags]
  split
  · rename_i hnobody
    -- nothing is added, for want of live tags or of anyone who watches
    rw [Bool.or_eq_true, List.isEmpty_iff, List.isEmpty_iff] at hnobody
    have hnone : st.liveTagKeys.foldl (add st now) emptyObject = emptyObject := by
      rcases hnobody with hkeys | hopened
      · rw [hkeys, List.foldl_nil]
      · refine List.foldlRecOn (motive := (· = emptyObject)) st.liveTagKeys _ rfl
          fun payload hp kp _ => ?_
        have hno : ¬ Watched st now kp := by
          unfold Watched
          rw [hopened]
          exact List.not_mem_nil
        rw [add, if_neg hno, hp]
    rw [hnone]
    rfl
  · refine congrArg (fun payload => if isEmptyObject payload then none else some payload)
      (congrArg (fun round => List.foldl round emptyObject st.liveTagKeys)
        (funext₂ fun payload kp => ?_))
    rw [add]
    refine if_congr List.contains_iff_mem ?_ rfl
    cases kp.lookup st.current <;> rfl

/-! ## What comes out -/

/-- The path extends that of a watched tag. -/
def Covered (st : TagsState) (now : ℚ) (kps : List KeyPath) (q : List String) : Prop :=
  ∃ kp ∈ kps, Watched st now kp ∧ kp.path <+: q

theorem covered_concat {kps : List KeyPath} {kp : KeyPath} {q : List String} :
    Covered st now (kps ++ [kp]) q ↔
      Covered st now kps q ∨ Watched st now kp ∧ kp.path <+: q := by
  simp only [Covered, List.mem_append, List.mem_singleton]
  constructor
  · rintro ⟨kp', hmem | rfl, h⟩
    · exact Or.inl ⟨kp', hmem, h⟩
    · exact Or.inr h
  · rintro (⟨kp', hmem, h⟩ | h)
    · exact ⟨kp', Or.inl hmem, h⟩
    · exact ⟨kp, Or.inr rfl, h⟩

/-- No value is above a path that is found. -/
theorem valueAt_above {j w : Json} {p q : List String} (h : j.lookup p = some w) (hq : q <+: p)
    (hne : q ≠ p) : j.valueAt q = none := by
  obtain ⟨r, rfl⟩ := hq
  cases r with
  | nil => exact absurd (List.append_nil q).symm hne
  | cons k r =>
    rw [lookup_append, Option.bind_eq_some_iff] at h
    obtain ⟨u, hu, hw⟩ := h
    rw [valueAt, hu, Option.filter_some, isObject_of_lookup_cons hw]
    rfl

/-- **Merging one more part of a value.**  What is merged in is found in `j` at the path, so
it changes nothing that was taken from `j` before. -/
theorem valueAt_merge {j payload value v : Json} {p q : List String} (hp : j.lookup p = some value)
    (hpayload : ∀ v, payload.valueAt q = some v → j.valueAt q = some v) :
    (applyDiff payload (KeyPath.construct ⟨p⟩ value) false).valueAt q = some v ↔
      payload.valueAt q = some v ∨ p <+: q ∧ j.valueAt q = some v := by
  have hconstruct := KeyPath.lookup_construct p value
  rw [valueAt_applyDiff, afterWrite_eq_some]
  by_cases hpq : p <+: q
  · obtain ⟨r, rfl⟩ := hpq
    rw [valueAt_append hconstruct, ← valueAt_append hp]
    constructor
    · rintro (h | ⟨-, h⟩)
      · exact Or.inr ⟨List.prefix_append p r, h⟩
      · exact Or.inl h
    · rintro (h | ⟨-, h⟩)
      · exact Or.inl (hpayload v h)
      · exact Or.inl h
  · by_cases hqp : q <+: p
    · -- above the path there is an object in both
      have hne : q ≠ p := fun h => hpq (h ▸ List.prefix_rfl)
      have hnone := valueAt_above hp hqp hne
      rw [valueAt_above hconstruct hqp hne, hnone]
      constructor
      · rintro (h | ⟨-, h⟩)
        · cases h
        · exact Or.inl h
      · rintro (h | ⟨h, -⟩)
        · rw [hpayload v h] at hnone
          cases hnone
        · exact absurd h hpq
    · have hmiss := KeyPath.misses_construct value hpq hqp
      rw [valueAt_of_misses hmiss]
      constructor
      · rintro (h | ⟨-, h⟩)
        · cases h
        · exact Or.inl h
      · rintro (h | ⟨h, -⟩)
        · exact Or.inr ⟨hmiss, h⟩
        · exact absurd h hpq

/-- **The message is a part of the cache**: at each path it has the value that is cached there,
if a watched tag covers the path, and else none. -/
theorem valueAt_messages (st : TagsState) (now : ℚ) (kps : List KeyPath) (q : List String)
    (v : Json) :
    (kps.foldl (add st now) emptyObject).valueAt q = some v ↔
      Covered st now kps q ∧ st.current.valueAt q = some v := by
  induction kps using List.reverseRecOn generalizing v with
  | nil =>
    rw [List.foldl_nil, emptyObject, valueAt_empty]
    constructor
    · intro h
      cases h
    · rintro ⟨⟨kp, hmem, -⟩, -⟩
      cases hmem
  | append_singleton kps kp ih =>
    rw [List.foldl_append, List.foldl_cons, List.foldl_nil, covered_concat, add]
    generalize kps.foldl (add st now) emptyObject = payload at ih
    by_cases hw : Watched st now kp
    · rw [if_pos hw]
      cases hv : kp.lookup st.current with
      | none =>
        have hnone : kp.path <+: q → st.current.valueAt q = none := by
          rintro ⟨r, rfl⟩
          rw [valueAt, lookup_append, show st.current.lookup kp.path = none from hv]
          rfl
        rw [Option.elim_none, ih]
        grind
      | some value =>
        rw [Option.elim_some, valueAt_merge hv fun v h => ((ih v).mp h).2, ih]
        grind
    · rw [if_neg hw, ih]
      grind

/-- There is no message as long as no watched tag has a value. -/
theorem isEmptyObject_messages (st : TagsState) (now : ℚ) {kps : List KeyPath}
    (hpaths : ∀ kp ∈ kps, kp.path ≠ []) :
    isEmptyObject (kps.foldl (add st now) emptyObject) = true ↔
      ∀ kp ∈ kps, Watched st now kp → kp.lookup st.current = none := by
  induction kps using List.reverseRecOn with
  | nil => exact iff_of_true rfl fun kp hkp => absurd hkp List.not_mem_nil
  | append_singleton kps kp ih =>
    have ih := ih fun kp' h => hpaths kp' (List.mem_append_left [kp] h)
    have hpath := hpaths kp (List.mem_append_right kps List.mem_cons_self)
    rw [List.foldl_append, List.foldl_cons, List.foldl_nil, List.forall_mem_append,
      List.forall_mem_singleton, ← ih, add]
    generalize kps.foldl (add st now) emptyObject = payload
    by_cases hw : Watched st now kp
    · rw [if_pos hw]
      cases hv : kp.lookup st.current with
      | none => simp
      | some value =>
        have hlookup := lookup_applyDiff_some (KeyPath.lookup_construct kp.path value) payload
        constructor
        · intro hempty
          rw [Option.elim_some] at hempty
          rw [lookup_of_isEmptyObject hempty hpath] at hlookup
          cases value <;> cases hlookup
        · rintro ⟨-, h⟩
          cases h hw
    · simp [hw]

end LiveTags

namespace TagsState

def setLiveTags (st : TagsState) (keys : List KeyPath) : TagsState := { st with liveTagKeys := keys }

end TagsState

namespace LiveTags

/-- **Just what is watched is streamed.**  Of the tags an app declares live there is a message
when one that somebody has open has a value, and it has the values cached for those tags and no
others. -/
theorem streams_open_tags (st : TagsState) (appKey : String) (names : List String) (now : ℚ) :
    let st := st.setLiveTags (names.map fun t => .mkScoped appKey [t])
    (st.flushLiveTags now = none ↔
      ∀ t ∈ names, st.isLiveTagOpen appKey t none now = true → st.getTag appKey t = none) ∧
    ∀ payload, st.flushLiveTags now = some payload → ∀ q v,
      payload.valueAt q = some v ↔
        (∃ t ∈ names, st.isLiveTagOpen appKey t none now = true ∧
          (KeyPath.mkScoped appKey [t]).path <+: q) ∧
        st.current.valueAt q = some v := by
  intro st
  have hpaths : ∀ kp ∈ st.liveTagKeys, kp.path ≠ [] := by
    intro kp hkp
    obtain ⟨t, -, rfl⟩ := List.mem_map.mp hkp
    exact KeyPath.mkScoped_path_ne_nil appKey t
  have hopen : ∀ t, st.isLiveTagOpen appKey t none now = true ↔
      Watched st now (.mkScoped appKey [t]) := fun t => isLiveTagOpen_iff st appKey t none now
  rw [flushLiveTags_eq]
  constructor
  · have hnone : ∀ b : Bool, ∀ payload : Json,
        (if b then none else some payload) = none ↔ b = true := by
      intro b payload
      cases b <;> simp
    rw [hnone, isEmptyObject_messages st now hpaths]
    constructor
    · exact fun h t ht hwatched => h _ (List.mem_map_of_mem ht) ((hopen t).mp hwatched)
    · intro h kp hkp hwatched
      obtain ⟨t, ht, rfl⟩ := List.mem_map.mp hkp
      exact h t ht ((hopen t).mpr hwatched)
  · intro payload hpayload q v
    rw [Option.ite_none_left_eq_some] at hpayload
    rw [← Option.some.inj hpayload.2, valueAt_messages]
    refine and_congr_left fun _ => ?_
    simp only [hopen]
    constructor
    · rintro ⟨kp, hkp, h⟩
      obtain ⟨t, ht, rfl⟩ := List.mem_map.mp hkp
      exact ⟨t, ht, h⟩
    · rintro ⟨t, ht, h⟩
      exact ⟨_, List.mem_map_of_mem ht, h⟩

end LiveTags
end Doover
