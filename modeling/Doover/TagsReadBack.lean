import Doover.TagWrites
import Doover.TagsWire

/-! # Reading a tag back while calls are open

A reader sees the cache overlaid with the pending writes.  After a tag was set,
`current` holds its value, and the pending buffer retains it, because it retains
everything the overlay shows (`retains_of_holds_applyDiff`); no invariant beyond
that is needed.  So only a step that takes the value out of the buffer, or changes
the cache below a buffer that has nothing to do with the path, can lose it:
`readsBack_step` names them.
-/

namespace Doover
namespace TagsReadBack
open Json TagsWire StepRuns

/-- `get_tag` returns a value that Python takes for `v`. -/
def ReadsBack (w : Wire) (appKey key : String) (v : Json) : Prop :=
  ∃ c, w.st.getTag appKey key = some c ∧ pythonJsonEq c v = true

/-- `set_tag` of a single tag: its triggers run, then the write's locked half. -/
def setTag (w : Wire) (appKey key : String) (v : Json) (opts : SetTagOptions) : Wire :=
  let kp := KeyPath.mkScoped appKey [key]
  let fired := (w.st.evaluateLogTriggers kp v).2
  step (step w (.evaluateLogTriggers kp v))
    (.set (kp.construct v) { opts with log := opts.log || fired })

/-- No set of an overlapping path, and no `tag_values` event. -/
def Undisturbing (p : List String) : Act → Prop
  | .set tags _ => tags.Misses p
  | .tagEvent _ => False
  | _ => True

theorem readsBack_iff {w : Wire} {appKey key : String} {v : Json} :
    ReadsBack w appKey key v ↔
      w.st.current.holds (KeyPath.mkScoped appKey [key]).path v = true := holds_iff.symm

/-- The step keeps the tag readable.  A flush takes a pending value off only when
the cache has it already, and an answered flush that writes the path, while nothing
is pending there, has sent the value. -/
def Keeps (w : Wire) (p : List String) (v : Json) : Act → Prop
  | .flush =>
    w.st.dirty = true → ¬ w.st.pendingAggregate.Misses p → w.st.tagValues.holds p v = true
  | .flushAnswered i true =>
    ∀ data, w.flushes[i]? = some data → w.st.pendingAggregate.Misses p → ¬ data.Misses p →
      data.holds p v = true
  | _ => True

section Step
variable {w : Wire} {p : List String} {v : Json}

/-- Right after the write the overlay holds the value. -/
theorem holds_current_set (w : Wire) {kp : KeyPath} (hv : v.isObject = false)
    (hp : kp.path ≠ []) (opts : SetTagOptions) :
    (step w (.set (kp.construct v) opts)).st.current.holds kp.path v = true := by
  have hleaf : (kp.construct v).valueAt kp.path = some v :=
    valueAt_eq_some.mpr ⟨KeyPath.lookup_construct kp.path v, hv⟩
  rw [step_set_st, TagsState.current, TagsState.setNestedTags_tagValues,
    TagsState.setNestedTags_pendingAggregate]
  split
  · rename_i hs
    obtain ⟨t, ht⟩ := exists_of_isObject (KeyPath.isObject_construct (p := kp.path) hp v)
    rw [TagsState.suppresses, Bool.and_eq_true] at hs
    obtain ⟨hl, -⟩ := valueAt_eq_some.mp hleaf
    change (KeyPath.construct ⟨kp.path⟩ v).lookup _ = _ at hl
    rw [ht] at hl
    exact holds_iff.mpr
      (lookup_of_isEmptyObject_generateDiff (by rw [← ht]; exact hs.2) hl hv)
  · exact holds_of_lookup (lookup_applyDiff_of_valueAt (valueAt_applyDiff_of_valueAt hleaf _) _)

/-- What the overlay holds while the buffer misses the path is in the cache. -/
theorem holds_tagValues_of_misses {st : TagsState} (h : st.current.holds p v = true)
    (hm : st.pendingAggregate.Misses p) : st.tagValues.holds p v = true := by
  rw [← holds_congr (lookup_applyDiff_of_misses hm st.tagValues false) v]
  exact h

/-- A step that leaves the buffer alone keeps the value, unless the buffer misses
the path and the cache loses it. -/
theorem holds_current_of_pending {st st' : TagsState} (hv : v.isObject = false)
    (h : st.current.holds p v = true) (hp : st'.pendingAggregate = st.pendingAggregate)
    (hcache : st.pendingAggregate.Misses p → st'.tagValues.holds p v = true) :
    st'.current.holds p v = true := by
  rw [TagsState.current, hp]
  exact (retains_of_holds_applyDiff hv h).holds_applyDiff hcache

theorem holds_current_flush {st : TagsState} (hp : p ≠ []) :
    ({ st with dirty := false, pendingAggregate := emptyObject } : TagsState).current.holds p v =
      st.tagValues.holds p v := by
  cases p with
  | nil => exact absurd rfl hp
  | cons k p => exact holds_congr (lookup_applyDiff_of_misses (misses_empty k p) _ _) v

theorem holds_current_aside {a : Act} (ha : a.isAside = true)
    (h : w.st.current.holds p v = true) : (step w a).st.current.holds p v = true := by
  obtain ⟨st, hst, hcache, hpend, -⟩ := step_aside ha w
  rw [hst, TagsState.current_congr hcache hpend]
  exact h

/-- **One step.**  A step that does not disturb the path keeps the tag readable
exactly when it is a `Keeps` step. -/
theorem readsBack_step (hp : p ≠ []) (hv : v.isObject = false) (hnull : v ≠ .null)
    (h : w.st.current.holds p v = true) {a : Act} (ha : Undisturbing p a) :
    (step w a).st.current.holds p v = true ↔ Keeps w p v a := by
  cases a with
  | set tags opts =>
    refine iff_of_true ?_ trivial
    rw [step_set_st, TagsState.current, TagsState.setNestedTags_tagValues,
      TagsState.setNestedTags_pendingAggregate]
    split
    · exact h
    · rcases retains_of_holds_applyDiff hv h with hm | ⟨x, hx, hxv⟩
      · rw [holds_congr (lookup_applyDiff_of_misses (misses_applyDiff hm ha false) _ _)]
        exact holds_tagValues_of_misses h hm
      · refine holds_iff.mpr ⟨x, lookup_applyDiff_of_valueAt ?_ _, hxv⟩
        rw [valueAt_applyDiff_of_misses ha, hx]
  | setAnswered ok =>
    refine iff_of_true ?_ trivial
    by_cases hs : w.sets = 0
    · rw [step_setAnswered_of_none hs]
      exact h
    · rw [step_setAnswered hs]
      cases ok with
      | false => exact h
      | true =>
        refine holds_current_of_pending hv h rfl fun hm => ?_
        exact (holds_congr (lookup_applyDiff_of_misses hm _ true) v).trans
          (holds_tagValues_of_misses h hm)
  | flush =>
    cases hd : w.st.dirty with
    | false =>
      rw [step_flush_of_clean hd]
      exact iff_of_true h fun hdirty => absurd (hd.symm.trans hdirty) Bool.false_ne_true
    | true =>
      rw [step_flush_of_dirty hd, holds_current_flush hp]
      constructor
      · exact fun hcache _ _ => hcache
      · intro hkeeps
        by_cases hm : w.st.pendingAggregate.Misses p
        · exact holds_tagValues_of_misses h hm
        · exact hkeeps hd hm
  | flushAnswered i ok =>
    cases hi : w.flushes[i]? with
    | none =>
      rw [step_flushAnswered_of_none hi]
      refine iff_of_true h ?_
      cases ok with
      | false => trivial
      | true =>
        intro data hdata
        rw [hi] at hdata
        cases hdata
    | some data =>
      rw [step_flushAnswered hi]
      cases ok with
      | false => exact iff_of_true h trivial
      | true =>
        constructor
        · intro hafter data' hdata' hm hdm
          rw [hi] at hdata'
          cases hdata'
          have hcache := holds_tagValues_of_misses hafter hm
          rwa [if_pos rfl, TagsState.flushTagsSent,
            holds_applyDiff_of_not_misses hdm hv hnull] at hcache
        · intro hkeeps
          refine holds_current_of_pending hv h rfl fun hm => ?_
          change (applyDiff w.st.tagValues data true).holds p v = true
          by_cases hdm : data.Misses p
          · rw [holds_congr (lookup_applyDiff_of_misses hdm _ true)]
            exact holds_tagValues_of_misses h hm
          · rw [holds_applyDiff_of_not_misses hdm hv hnull]
            exact hkeeps data hi hm hdm
  | tagEvent ev => exact False.elim ha
  | _ => exact iff_of_true (holds_current_aside rfl h) trivial

end Step

/-- **Which runs read a tag back.**  From any state, with whatever calls open, set
a tag to a value other than an object or `null`, and go on with steps that neither
set an overlapping path nor bring a `tag_values` event.  `get_tag` returns the
value all along, up to Python's equality, if and only if every step `Keeps` it. -/
theorem readsBack_iff_keeps (w : Wire) (appKey key : String) (v : Json) (opts : SetTagOptions)
    (acts : List Act) (hv : v.isObject = false) (hnull : v ≠ .null)
    (h : ∀ a ∈ acts, Undisturbing (KeyPath.mkScoped appKey [key]).path a) :
    (∀ pre, pre <+: acts → ReadsBack (exec step (setTag w appKey key v opts) pre) appKey key v) ↔
      ∀ pre a, pre ++ [a] <+: acts →
        Keeps (exec step (setTag w appKey key v opts) pre)
          (KeyPath.mkScoped appKey [key]).path v a := by
  have hp := KeyPath.mkScoped_path_ne_nil appKey key
  refine forall_prefix_iff ?_ fun pre a hpre hread => ?_
  · exact readsBack_iff.mpr (holds_current_set _ hv hp _)
  · rw [readsBack_iff] at hread ⊢
    rw [exec_concat]
    exact readsBack_step hp hv hnull hread (h a (hpre.subset (by simp)))

/-- The equivalence for a tag set over a cache that has the value, flushed and
answered. -/
theorem readsBack_iff_keeps_cached :
    let w : Wire := ⟨{ TagsState.default with
      tagValues := KeyPath.construct ⟨["a", "k"]⟩ (.bool true) }, 0, [], []⟩
    let acts : List Act := [.flush, .flushAnswered 0 true]
    (∀ pre, pre <+: acts →
        ReadsBack (exec step (setTag w "a" "k" (.bool true) ⟨false, false, false⟩) pre)
          "a" "k" (.bool true)) ↔
      ∀ pre a, pre ++ [a] <+: acts →
        Keeps (exec step (setTag w "a" "k" (.bool true) ⟨false, false, false⟩) pre)
          (KeyPath.mkScoped "a" ["k"]).path (.bool true) a :=
  readsBack_iff_keeps _ "a" "k" (.bool true) ⟨false, false, false⟩ _ rfl Json.noConfusion
    (by simp [Undisturbing])

/-- A tag set on a fresh runtime reads as absent while the flush that sends it is
unanswered. -/
theorem unread_while_flushing :
    let acts : List Act := [.flush]
    (∀ a ∈ acts, Undisturbing (KeyPath.mkScoped "a" ["k"]).path a) ∧
      (exec step (setTag ⟨.default, 0, [], []⟩ "a" "k" (.bool true) .default)
        acts).st.getTag "a" "k" = none ∧
      ¬ ReadsBack (exec step (setTag ⟨.default, 0, [], []⟩ "a" "k" (.bool true) .default) acts)
        "a" "k" (.bool true) := by
  intro acts
  have hnone : (exec step (setTag ⟨.default, 0, [], []⟩ "a" "k" (.bool true) .default)
      acts).st.getTag "a" "k" = none := by rfl
  refine ⟨by simp [acts, Undisturbing], hnone, ?_⟩
  rintro ⟨c, hc, -⟩
  rw [hnone] at hc
  cases hc

end TagsReadBack
end Doover
