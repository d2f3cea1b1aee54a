import Doover.TagWrites
import Doover.TagsSequential

/-! # Reads once everything is sent

Calls do not overlap, every RPC succeeds, and others write the aggregate too, which
this runtime learns from events.  What a reader should see of a path is told by the
history (`expected`): the value this runtime sent last, if that was after the last
event, else what the last event has there.

A flushing write sends the pending buffer and leaves it in place.  Its paths are
then left over (`Leftover`): they hide what later events bring, and the next flush
sends them again.  `settled_step` says that nothing else goes wrong, path by path.
-/

namespace Doover
namespace TagsSettled
open Json StepRuns

/-- A tag value, neither an object nor `null`. -/
structure TagValue where
  value : Json
  notObject : value.isObject = false
  notNull : value ≠ .null

inductive Call where
  /-- `set_tag`. -/
  | set (appKey key : String) (v : TagValue) (opts : SetTagOptions)
  /-- `commit_tags`, at a time. -/
  | commit (instant : ℕ) (unixMs : ℚ)
  /-- A `tag_values` event. -/
  | event (ev : Event)

/-- What happened. -/
inductive Entry where
  /-- A write that was not dropped as unchanged. -/
  | accepted (tags : Json)
  /-- A payload sent by a flushing write. -/
  | sentNow (payload : Json)
  /-- A payload sent by `flush_tags`. -/
  | flushed (payload : Json)
  /-- An event that carried this aggregate. -/
  | event (agg : Json)

structure Host where
  st : TagsState
  log : List Entry

/-- The aggregate an event brings; a sync without one counts as an empty one. -/
def eventAggregate (ev : Event) : Option Json :=
  if ev.isChannelSync then some (ev.aggregateData.getD emptyObject) else ev.aggregateData

def start : Host := ⟨.default, []⟩

def step (h : Host) : Call → Host
  | .set appKey key v opts =>
    let kp := KeyPath.mkScoped appKey [key]
    let o := h.st.setTagCall appKey key v.value opts true
    let dropped := (h.st.evaluateLogTriggers kp v.value).1.suppresses (kp.construct v.value) opts
    ⟨o.st, h.log ++ (if dropped then [] else [.accepted (kp.construct v.value)]) ++
      (o.aggregates true).map .sentNow⟩
  | .commit instant unixMs =>
    let o := h.st.commitTagsCall ⟨instant, unixMs, true, true, true, true⟩
    ⟨o.st, h.log ++ (o.aggregates true).map .flushed⟩
  | .event ev => ⟨h.st.onTagEvent ev, h.log ++ (eventAggregate ev).toList.map .event⟩

/-! ## What the history says -/

/-- What a reader should see of the path once everything is sent. -/
def expected (p : List String) (log : List Entry) : Option Json :=
  log.foldl (fun seen e => match e with
    | .accepted _ => seen
    | .sentNow payload | .flushed payload => (payload.valueAt p).or seen
    | .event agg => agg.lookup p) none

/-- The path was set, and no payload since contained it. -/
def Fresh (log : List Entry) (p : List String) : Prop :=
  log.foldl (fun fresh e => match e with
    | .accepted tags => tags.valueAt p ≠ none ∨ (tags.Misses p ∧ fresh)
    | .sentNow payload | .flushed payload => fresh ∧ payload.valueAt p = none
    | .event _ => fresh) False

/-- A flushing write sent the path, and it was neither set nor flushed since. -/
def Leftover (log : List Entry) (p : List String) : Prop :=
  log.foldl (fun left e => match e with
    | .accepted tags => tags.valueAt p = none ∧ left
    | .sentNow payload => payload.valueAt p ≠ none
    | .flushed _ => False
    | .event _ => left) False

/-- Every accepted write is in a payload. -/
def AllSent (log : List Entry) : Prop := ∀ p, ¬ Fresh log p

/-- A flush just made contained the path only if it was set since the last payload
that contained it. -/
def NoRepeat (p : List String) (log : List Entry) : Prop :=
  ∀ earlier payload, log = earlier ++ [.flushed payload] → payload.valueAt p ≠ none →
    Fresh earlier p

/-- The path reads as expected whenever everything is sent, and no flush repeats it. -/
def Settled (h : Host) (appKey key : String) : Prop :=
  (AllSent h.log → h.st.getTag appKey key = expected (KeyPath.mkScoped appKey [key]).path h.log) ∧
    NoRepeat (KeyPath.mkScoped appKey [key]).path h.log

/-- No write of the run is at a proper prefix or an extension of the path. -/
def Apart (p : List String) : Call → Prop
  | .set appKey key _ _ =>
    let q := (KeyPath.mkScoped appKey [key]).path
    q = p ∨ (¬ q <+: p ∧ ¬ p <+: q)
  | _ => True

instance decidableApart (p : List String) : ∀ c, Decidable (Apart p c)
  | .set .. => inferInstanceAs (Decidable (_ ∨ _))
  | .commit .. => .isTrue trivial
  | .event _ => .isTrue trivial

/-- The step does no harm to a path left over.  An event that arrives with nothing
to flush has the value that was sent, and a commit that flushes finds no path left
over. -/
def Harmless (h : Host) (p : List String) : Call → Prop
  | .set .. => True
  | .commit .. => h.st.dirty = true → ¬ Leftover h.log p
  | .event ev => ∀ agg, eventAggregate ev = some agg → h.st.dirty = false →
      Leftover h.log p → agg.lookup p = h.st.pendingAggregate.valueAt p

/-! ## What one call does -/

theorem onTagEvent_eq (st : TagsState) (ev : Event) :
    st.onTagEvent ev = { st with tagValues := (eventAggregate ev).getD st.tagValues } := by
  unfold TagsState.onTagEvent eventAggregate
  split
  · rfl
  · unfold TagsState.onTagUpdate
    cases ev.aggregateData with
    | none => rfl
    | some agg =>
      simp only
      split <;> rfl

section Steps
variable {h : Host}

/-- A write is dropped, is buffered, or is sent with everything pending. -/
theorem step_set {appKey key : String} {v : TagValue} {tags : Json}
    (htags : (KeyPath.mkScoped appKey [key]).construct v.value = tags) (opts : SetTagOptions) :
    let h' := step h (.set appKey key v opts)
    (h'.log = h.log ∧ h'.st.tagValues = h.st.tagValues ∧
      h'.st.pendingAggregate = h.st.pendingAggregate ∧ h'.st.dirty = h.st.dirty) ∨
    (h'.log = h.log ++ [.accepted tags] ∧ h'.st.tagValues = h.st.tagValues ∧
      h'.st.pendingAggregate = applyDiff h.st.pendingAggregate tags false ∧
      h'.st.dirty = true) ∨
    (h'.log = h.log ++ [.accepted tags] ++
        [.sentNow (applyDiff h.st.pendingAggregate tags false)] ∧
      h'.st.tagValues =
        applyDiff h.st.tagValues (applyDiff h.st.pendingAggregate tags false) true ∧
      h'.st.pendingAggregate = applyDiff h.st.pendingAggregate tags false ∧
      h'.st.dirty = false) := by
  obtain ⟨onlyIfChanged, flush, log⟩ := opts
  obtain ⟨ts, hev⟩ := h.st.evaluateLogTriggers_eq (KeyPath.mkScoped appKey [key]) v.value
  simp only [step, TagsState.setTagCall, htags, hev]
  generalize (h.st.evaluateLogTriggers (KeyPath.mkScoped appKey [key]) v.value).2 = fired
  generalize hst : ({ h.st with logTriggers := ts } : TagsState) = st
  obtain ⟨hv, hp, hd⟩ : st.tagValues = h.st.tagValues ∧
      st.pendingAggregate = h.st.pendingAggregate ∧ st.dirty = h.st.dirty := by
    rw [← hst]
    exact ⟨rfl, rfl, rfl⟩
  -- the triggers only decide whether the write is logged, not whether it is dropped
  have hsame : st.suppresses tags ⟨onlyIfChanged, flush, log⟩ =
      st.suppresses tags ⟨onlyIfChanged, flush, log || fired⟩ := rfl
  rw [hsame]
  cases hsup : st.suppresses tags ⟨onlyIfChanged, flush, log || fired⟩ with
  | true =>
    rw [TagsState.setNestedTagsCall_of_suppresses _ _ _ _ hsup]
    exact Or.inl ⟨by simp [Outcome.aggregates], hv, hp, hd⟩
  | false =>
    refine Or.inr ?_
    cases flush with
    | false =>
      obtain ⟨st', ho, hv', hp', hd'⟩ :=
        TagsState.setNestedTagsCall_buffered st tags _ true hsup rfl
      rw [ho]
      exact Or.inl ⟨by simp [Outcome.aggregates], hv'.trans hv, by rw [hp', hp], hd'⟩
    | true =>
      obtain ⟨st', ho, hv', hp', -⟩ :=
        TagsState.setNestedTagsCall_flush st tags _ true hsup rfl
      rw [ho]
      refine Or.inr ⟨by simp [Outcome.aggregates, hp], ?_, ?_, rfl⟩
      · change applyDiff st'.tagValues st'.pendingAggregate true = _
        rw [hv', hp', hv, hp]
      · change st'.pendingAggregate = _
        rw [hp', hp]

theorem step_commit (instant : ℕ) (unixMs : ℚ) :
    let h' := step h (.commit instant unixMs)
    (h.st.dirty = false ∧ h'.log = h.log ∧ h'.st.tagValues = h.st.tagValues ∧
      h'.st.pendingAggregate = h.st.pendingAggregate ∧ h'.st.dirty = false) ∨
    (h.st.dirty = true ∧ h'.log = h.log ++ [.flushed h.st.pendingAggregate] ∧
      h'.st.tagValues = applyDiff h.st.tagValues h.st.pendingAggregate true ∧
      h'.st.pendingAggregate = emptyObject ∧ h'.st.dirty = false) := by
  obtain ⟨⟨hv, hp, hd⟩, ha⟩ :=
    TagsState.commitTagsCall_stores h.st ⟨instant, unixMs, true, true, true, true⟩
  cases hdirty : h.st.dirty with
  | false =>
    rw [TagsState.flushTagsCall_of_clean _ _ hdirty] at hv hp hd
    refine Or.inl ⟨rfl, ?_, hv, hp, hd.trans hdirty⟩
    rw [step, ha, TagsState.flushTagsCall_of_clean _ _ hdirty]
    exact List.append_nil _
  | true =>
    rw [TagsState.flushTagsCall_of_dirty _ _ hdirty] at hv hp hd
    refine Or.inr ⟨rfl, ?_, hv, hp, hd⟩
    rw [step, ha, TagsState.flushTagsCall_of_dirty _ _ hdirty]
    rfl

end Steps

/-! ## The history after one more entry -/

section History
variable (log : List Entry) (p : List String)

theorem expected_append (e : Entry) :
    expected p (log ++ [e]) = match e with
      | .accepted _ => expected p log
      | .sentNow payload | .flushed payload => (payload.valueAt p).or (expected p log)
      | .event agg => agg.lookup p := by
  rw [expected, List.foldl_append]
  rfl

theorem fresh_append (e : Entry) :
    Fresh (log ++ [e]) p ↔ match e with
      | .accepted tags => tags.valueAt p ≠ none ∨ (tags.Misses p ∧ Fresh log p)
      | .sentNow payload | .flushed payload => Fresh log p ∧ payload.valueAt p = none
      | .event _ => Fresh log p := by
  rw [Fresh, List.foldl_append]
  exact Iff.rfl

theorem leftover_append (e : Entry) :
    Leftover (log ++ [e]) p ↔ match e with
      | .accepted tags => tags.valueAt p = none ∧ Leftover log p
      | .sentNow payload => payload.valueAt p ≠ none
      | .flushed _ => False
      | .event _ => Leftover log p := by
  rw [Leftover, List.foldl_append]
  exact Iff.rfl

/-- Only a flush can repeat. -/
theorem noRepeat_append {e : Entry} (h : ∀ payload, e ≠ .flushed payload) :
    NoRepeat p (log ++ [e]) := by
  intro earlier payload heq
  exact absurd (List.append_inj_right' heq rfl) (by simpa using h payload)

theorem noRepeat_flushed (payload : Json) :
    NoRepeat p (log ++ [.flushed payload]) ↔ (payload.valueAt p ≠ none → Fresh log p) := by
  constructor
  · exact fun h => h log payload rfl
  · intro h earlier payload' heq
    obtain ⟨rfl, he⟩ := List.append_inj' heq rfl
    cases he
    exact h

end History

/-! ## What every call keeps -/

/-- What holds of the buffer and the history, for all paths. -/
structure Valid (h : Host) : Prop where
  noNull : h.st.pendingAggregate.NoNull
  fresh : ∀ q, Fresh h.log q → h.st.pendingAggregate.valueAt q ≠ none
  dirty : h.st.dirty = true ↔ ∃ q, Fresh h.log q

/-- What holds for a path apart from all writes. -/
structure Tracked (h : Host) (p : List String) : Prop where
  /-- The buffer has a value there, or misses the path. -/
  shape : h.st.pendingAggregate.Misses p ∨ h.st.pendingAggregate.valueAt p ≠ none
  cache : h.st.pendingAggregate.Misses p → h.st.tagValues.lookup p = expected p h.log
  /-- What is pending is to be sent, or left over. -/
  pending : h.st.pendingAggregate.valueAt p ≠ none ↔ Fresh h.log p ∨ Leftover h.log p
  left : Leftover h.log p → ¬ Fresh h.log p

theorem Valid.allSent_iff {h : Host} (hv : Valid h) : AllSent h.log ↔ h.st.dirty = false := by
  rw [AllSent, ← not_exists, ← hv.dirty, Bool.not_eq_true]

/-- The writes of single tags, seen from one path. -/
theorem construct_noNull (kp : KeyPath) (v : TagValue) : (kp.construct v.value).NoNull := by
  intro p hp
  obtain ⟨hl, -⟩ := valueAt_eq_some.mp hp
  exact v.notNull (KeyPath.eq_of_lookup_construct (p := kp.path) v.notObject rfl hl).2.symm

theorem construct_valueAt (kp : KeyPath) (v : TagValue) :
    (kp.construct v.value).valueAt kp.path = some v.value :=
  valueAt_eq_some.mpr ⟨KeyPath.lookup_construct kp.path v.value, v.notObject⟩

theorem fresh_accepted_valueAt {log : List Entry} {pending : Json}
    (hpend : ∀ q, Fresh log q → pending.valueAt q ≠ none) (tags : Json) (q : List String)
    (hf : Fresh (log ++ [.accepted tags]) q) :
    (applyDiff pending tags false).valueAt q ≠ none := by
  rw [valueAt_applyDiff]
  rcases (fresh_append log q _).mp hf with hv | ⟨hm, hf⟩
  · obtain ⟨x, hx⟩ := Option.ne_none_iff_exists'.mp hv
    rw [afterWrite_of_valueAt hx]
    exact Option.some_ne_none x
  · rw [afterWrite_of_misses hm]
    exact hpend q hf

/-- A payload with everything fresh in it leaves nothing fresh. -/
theorem not_fresh_after {log : List Entry} {payload : Json}
    (h : ∀ q, Fresh log q → payload.valueAt q ≠ none) (q : List String) :
    ¬ (Fresh log q ∧ payload.valueAt q = none) := fun ⟨hf, hn⟩ => h q hf hn

theorem valid_step {h : Host} (hv : Valid h) (c : Call) : Valid (step h c) := by
  cases c with
  | set appKey key v opts =>
    have hnull := hv.noNull.applyDiff (construct_noNull (KeyPath.mkScoped appKey [key]) v)
    rcases step_set (h := h) rfl opts with ⟨hl, -, hp, hd⟩ | ⟨hl, -, hp, hd⟩ | ⟨hl, -, hp, hd⟩
    · exact ⟨hp ▸ hv.noNull, by rw [hl, hp]; exact hv.fresh, by rw [hl, hd]; exact hv.dirty⟩
    · refine ⟨hp ▸ hnull, ?_, ?_⟩
      · rw [hl, hp]
        exact fresh_accepted_valueAt hv.fresh _
      · rw [hl, hd]
        refine iff_of_true rfl
          ⟨(KeyPath.mkScoped appKey [key]).path, (fresh_append ..).mpr (Or.inl ?_)⟩
        rw [construct_valueAt]
        exact Option.some_ne_none _
    · have hgone := not_fresh_after (fresh_accepted_valueAt hv.fresh
        ((KeyPath.mkScoped appKey [key]).construct v.value))
      refine ⟨hp ▸ hnull, ?_, ?_⟩
      · rw [hl]
        exact fun q hf => absurd ((fresh_append ..).mp hf) (hgone q)
      · rw [hl, hd]
        exact iff_of_false Bool.false_ne_true
          fun ⟨q, hf⟩ => absurd ((fresh_append ..).mp hf) (hgone q)
  | commit instant unixMs =>
    rcases step_commit (h := h) instant unixMs with ⟨hc, hl, -, hp, hd⟩ | ⟨-, hl, -, hp, hd⟩
    · exact ⟨hp ▸ hv.noNull, by rw [hl, hp]; exact hv.fresh, by rw [hl, hd, ← hc]; exact hv.dirty⟩
    · have hgone := fun q => not_fresh_after hv.fresh q
      refine ⟨hp ▸ noNull_empty, ?_, ?_⟩
      · rw [hl]
        exact fun q hf => absurd ((fresh_append ..).mp hf) (hgone q)
      · rw [hl, hd]
        exact iff_of_false Bool.false_ne_true
          fun ⟨q, hf⟩ => absurd ((fresh_append ..).mp hf) (hgone q)
  | event ev =>
    rw [step, onTagEvent_eq]
    cases eventAggregate ev with
    | none =>
      rw [Option.toList_none, List.map_nil, List.append_nil]
      exact ⟨hv.noNull, hv.fresh, hv.dirty⟩
    | some agg =>
      refine ⟨hv.noNull, fun q hf => hv.fresh q ((fresh_append ..).mp hf), ?_⟩
      exact hv.dirty.trans (exists_congr fun q => (fresh_append h.log q (.event agg)).symm)

/-- The buffer after a write, seen from a path apart from it. -/
theorem shape_accepted {pending tags : Json} {p : List String}
    (hshape : pending.Misses p ∨ pending.valueAt p ≠ none)
    (htags : tags.Misses p ∨ ∃ x, tags.valueAt p = some x) :
    ((applyDiff pending tags false).Misses p ∨ (applyDiff pending tags false).valueAt p ≠ none) ∧
      ((applyDiff pending tags false).Misses p → pending.Misses p ∧ tags.Misses p) := by
  rcases htags with hm | ⟨x, hx⟩
  · rcases hshape with hp | hp
    · exact ⟨Or.inl (misses_applyDiff hp hm false), fun _ => ⟨hp, hm⟩⟩
    · rw [← valueAt_applyDiff_of_misses hm pending false] at hp
      exact ⟨Or.inr hp, fun h => absurd (valueAt_of_misses h) hp⟩
  · have hv := valueAt_applyDiff_of_valueAt hx pending
    exact ⟨Or.inr (by rw [hv]; exact Option.some_ne_none x),
      fun h => absurd h (not_misses_of_valueAt hv)⟩

theorem apart_misses_or_valueAt {p : List String} {appKey key : String} {v : TagValue}
    {opts : SetTagOptions} (h : Apart p (.set appKey key v opts)) :
    ((KeyPath.mkScoped appKey [key]).construct v.value).Misses p ∨
      ∃ x, ((KeyPath.mkScoped appKey [key]).construct v.value).valueAt p = some x := by
  rcases h with rfl | ⟨hqp, hpq⟩
  · exact Or.inr ⟨v.value, construct_valueAt _ v⟩
  · exact Or.inl (KeyPath.misses_construct v.value hqp hpq)

/-- What is pending, to be sent or left over, after a write that was accepted. -/
theorem pending_accepted {log : List Entry} {pending tags : Json} {p : List String}
    (hpend : pending.valueAt p ≠ none ↔ Fresh log p ∨ Leftover log p)
    (hleft : Leftover log p → ¬ Fresh log p)
    (htags : tags.Misses p ∨ ∃ x, tags.valueAt p = some x) :
    ((applyDiff pending tags false).valueAt p ≠ none ↔
        Fresh (log ++ [.accepted tags]) p ∨ Leftover (log ++ [.accepted tags]) p) ∧
      (Leftover (log ++ [.accepted tags]) p → ¬ Fresh (log ++ [.accepted tags]) p) := by
  have hfresh : Fresh (log ++ [.accepted tags]) p ↔
      tags.valueAt p ≠ none ∨ (tags.Misses p ∧ Fresh log p) := fresh_append ..
  have hover : Leftover (log ++ [.accepted tags]) p ↔ tags.valueAt p = none ∧ Leftover log p :=
    leftover_append ..
  rw [hfresh, hover]
  rcases htags with hm | ⟨x, hx⟩
  · rw [valueAt_applyDiff_of_misses hm, valueAt_of_misses hm]
    simp only [ne_eq, not_true_eq_false, false_or, hm, true_and]
    exact ⟨hpend, hleft⟩
  · rw [valueAt_applyDiff_of_valueAt hx, hx]
    simp

theorem tracked_step {h : Host} (hv : Valid h) {p : List String} (hp : p ≠ [])
    (ht : Tracked h p) {c : Call} (hc : Apart p c) : Tracked (step h c) p := by
  cases c with
  | set appKey key v opts =>
    have htags := apart_misses_or_valueAt hc
    have hnull := hv.noNull.applyDiff (construct_noNull (KeyPath.mkScoped appKey [key]) v)
    obtain ⟨hshape, hmiss⟩ := shape_accepted ht.shape htags
    obtain ⟨hpending, hleft⟩ := pending_accepted ht.pending ht.left htags
    rcases step_set (h := h) rfl opts with
      ⟨hl, htv, hpd, -⟩ | ⟨hl, htv, hpd, -⟩ | ⟨hl, htv, hpd, -⟩
    · exact ⟨hpd ▸ ht.shape, by rw [hpd, htv, hl]; exact ht.cache,
        by rw [hpd, hl]; exact ht.pending, by rw [hl]; exact ht.left⟩
    · refine ⟨hpd ▸ hshape, ?_, by rw [hpd, hl]; exact hpending, by rw [hl]; exact hleft⟩
      rw [hpd, htv, hl, expected_append]
      exact fun hm => ht.cache (hmiss hm).1
    · have hgone := not_fresh_after (fresh_accepted_valueAt hv.fresh
        ((KeyPath.mkScoped appKey [key]).construct v.value)) p
      refine ⟨hpd ▸ hshape, ?_, ?_, ?_⟩
      · rw [hpd, htv, hl]
        simp only [expected_append]
        intro hm
        rw [lookup_applyDiff_of_misses hm, valueAt_of_misses hm]
        exact ht.cache (hmiss hm).1
      · rw [hpd, hl, fresh_append, leftover_append]
        exact ⟨Or.inr, fun h => h.resolve_left hgone⟩
      · rw [hl]
        exact fun _ hf => hgone ((fresh_append ..).mp hf)
  | commit instant unixMs =>
    rcases step_commit (h := h) instant unixMs with
      ⟨-, hl, htv, hpd, -⟩ | ⟨-, hl, htv, hpd, -⟩
    · exact ⟨hpd ▸ ht.shape, by rw [hpd, htv, hl]; exact ht.cache,
        by rw [hpd, hl]; exact ht.pending, by rw [hl]; exact ht.left⟩
    · have hgone := not_fresh_after hv.fresh p
      have hnone : emptyObject.valueAt p = none := valueAt_empty p
      refine ⟨?_, ?_, ?_, ?_⟩
      · rw [hpd]
        cases p with
        | nil => exact absurd rfl hp
        | cons k p => exact Or.inl (misses_empty k p)
      · -- the cache takes over what was pending
        rw [htv, hl]
        simp only [expected_append]
        intro _
        rcases ht.shape with hm | hne
        · rw [lookup_applyDiff_of_misses hm, valueAt_of_misses hm]
          exact ht.cache hm
        · obtain ⟨x, hx⟩ := Option.ne_none_iff_exists'.mp hne
          have hafter := hv.noNull.valueAt_applyDiff h.st.tagValues true p
          rw [afterWrite_of_valueAt hx] at hafter
          simp only [hx, Option.some_or]
          exact (valueAt_eq_some.mp hafter).1
      · rw [hpd, hl, hnone]
        simp only [fresh_append, leftover_append, ne_eq, not_true_eq_false, or_false, false_iff]
        exact hgone
      · rw [hl]
        exact fun hleft => False.elim ((leftover_append ..).mp hleft)
  | event ev =>
    rw [step, onTagEvent_eq]
    cases eventAggregate ev with
    | none =>
      rw [Option.toList_none, List.map_nil, List.append_nil]
      exact ⟨ht.shape, ht.cache, ht.pending, ht.left⟩
    | some agg =>
      refine ⟨ht.shape, fun _ => ?_, ?_, ?_⟩
      · change agg.lookup p = expected p (h.log ++ [.event agg])
        rw [expected_append]
      · change _ ↔ Fresh (h.log ++ [.event agg]) p ∨ Leftover (h.log ++ [.event agg]) p
        rw [fresh_append, leftover_append]
        exact ht.pending
      · change Leftover (h.log ++ [.event agg]) p → ¬ Fresh (h.log ++ [.event agg]) p
        rw [fresh_append, leftover_append]
        exact ht.left

/-! ## Which steps unsettle a read -/

/-- What reads as expected, in terms of the buffer. -/
theorem settled_iff {h : Host} (hv : Valid h) {appKey key : String}
    (ht : Tracked h (KeyPath.mkScoped appKey [key]).path) :
    Settled h appKey key ↔
      (h.st.dirty = false →
        ∀ x, h.st.pendingAggregate.valueAt (KeyPath.mkScoped appKey [key]).path = some x →
          expected (KeyPath.mkScoped appKey [key]).path h.log = some x) ∧
        NoRepeat (KeyPath.mkScoped appKey [key]).path h.log := by
  rw [Settled, hv.allSent_iff]
  refine and_congr_left fun _ => imp_congr_right fun _ => ?_
  change (applyDiff h.st.tagValues h.st.pendingAggregate false).lookup _ = expected _ h.log ↔ _
  constructor
  · intro hread x hx
    rw [← hread, lookup_applyDiff_of_valueAt hx]
  · intro hpend
    rcases ht.shape with hm | hne
    · rw [lookup_applyDiff_of_misses hm]
      exact ht.cache hm
    · obtain ⟨x, hx⟩ := Option.ne_none_iff_exists'.mp hne
      rw [lookup_applyDiff_of_valueAt hx, hpend x hx]

theorem settled_step {h : Host} (hv : Valid h) {appKey key : String}
    (ht : Tracked h (KeyPath.mkScoped appKey [key]).path) (hs : Settled h appKey key) {c : Call}
    (hc : Apart (KeyPath.mkScoped appKey [key]).path c) :
    Settled (step h c) appKey key ↔ Harmless h (KeyPath.mkScoped appKey [key]).path c := by
  rw [settled_iff (valid_step hv c)
    (tracked_step hv (KeyPath.mkScoped_path_ne_nil appKey key) ht hc)]
  obtain ⟨hread, hrep⟩ := (settled_iff hv ht).mp hs
  generalize (KeyPath.mkScoped appKey [key]).path = p at ht hc hread hrep ⊢
  cases c with
  | set appKey' key' v opts =>
    refine iff_of_true ?_ trivial
    rcases step_set (h := h) rfl opts with
      ⟨hl, -, hpd, hd⟩ | ⟨hl, -, -, hd⟩ | ⟨hl, -, hpd, -⟩
    · rw [hl, hpd, hd]
      exact ⟨hread, hrep⟩
    · rw [hl, hd]
      exact ⟨fun h => Bool.noConfusion h, noRepeat_append _ _ fun _ => Entry.noConfusion⟩
    · rw [hl, hpd]
      refine ⟨fun _ x hx => ?_, noRepeat_append _ _ fun _ => Entry.noConfusion⟩
      simp only [expected_append, hx, Option.some_or]
  | commit instant unixMs =>
    rcases step_commit (h := h) instant unixMs with
      ⟨hclean, hl, -, hpd, hd⟩ | ⟨hdirty, hl, -, hpd, -⟩
    · rw [hl, hpd, hd]
      exact iff_of_true ⟨fun _ => hread hclean, hrep⟩
        fun hdirty => absurd (hclean.symm.trans hdirty) Bool.false_ne_true
    · rw [hl, hpd, noRepeat_flushed, ht.pending]
      constructor
      · exact fun h _ hleft => ht.left hleft (h.2 (Or.inr hleft))
      · intro hharm
        refine ⟨fun _ x hx => ?_, fun h => h.resolve_right (hharm hdirty)⟩
        rw [emptyObject, valueAt_empty] at hx
        cases hx
  | event ev =>
    rw [step, onTagEvent_eq, Harmless]
    cases eventAggregate ev with
    | none =>
      rw [Option.toList_none, List.map_nil, List.append_nil]
      exact iff_of_true ⟨hread, hrep⟩ fun _ h => absurd h (Option.some_ne_none _).symm
    | some agg =>
      have hno : NoRepeat p (h.log ++ [.event agg]) :=
        noRepeat_append _ _ fun _ => Entry.noConfusion
      have hfresh : h.st.dirty = false → ¬ Fresh h.log p := fun hclean hf =>
        hv.allSent_iff.mpr hclean p hf
      change (h.st.dirty = false → ∀ x, h.st.pendingAggregate.valueAt p = some x →
        expected p (h.log ++ [.event agg]) = some x) ∧ NoRepeat p (h.log ++ [.event agg]) ↔ _
      simp only [expected_append, hno, and_true, Option.some.injEq, forall_eq']
      refine imp_congr_right fun hclean => ?_
      constructor
      · intro hagg hleft
        obtain ⟨x, hx⟩ := Option.ne_none_iff_exists'.mp (ht.pending.mpr (Or.inr hleft))
        rw [hx, hagg x hx]
      · intro hagg x hx
        have hleft := (ht.pending.mp (by rw [hx]; exact Option.some_ne_none x)).resolve_left
          (hfresh hclean)
        rw [hagg hleft, hx]

/-! ## Runs -/

theorem valid_start : Valid start where
  noNull := noNull_empty
  fresh _ h := False.elim h
  dirty := iff_of_false Bool.false_ne_true fun ⟨_, h⟩ => h

theorem valid_exec (calls : List Call) : Valid (exec step start calls) :=
  exec_invariant step valid_start fun _ hv c _ => valid_step hv c

theorem tracked_start {p : List String} (hp : p ≠ []) : Tracked start p where
  shape := by
    cases p with
    | nil => exact absurd rfl hp
    | cons k p => exact Or.inl (misses_empty k p)
  cache _ := by
    cases p with
    | nil => exact absurd rfl hp
    | cons k p => exact (misses_empty k p).lookup
  pending := by
    refine iff_of_false (fun h => h (valueAt_empty p)) ?_
    rintro (h | h) <;> exact h
  left h := False.elim h

/-- **When settled reads follow the agent.**  In a run of sets, commits and events,
for a tag whose path is apart from the other paths written: all along, the tag reads
as expected whenever everything is sent, and no flush repeats it, if and only if
every step is `Harmless`. -/
theorem settled_iff_harmless (appKey key : String) (calls : List Call)
    (h : ∀ c ∈ calls, Apart (KeyPath.mkScoped appKey [key]).path c) :
    (∀ pre, pre <+: calls → Settled (exec step start pre) appKey key) ↔
      ∀ pre c, pre ++ [c] <+: calls →
        Harmless (exec step start pre) (KeyPath.mkScoped appKey [key]).path c := by
  have hp := KeyPath.mkScoped_path_ne_nil appKey key
  have htracked : ∀ pre, pre <+: calls →
      Tracked (exec step start pre) (KeyPath.mkScoped appKey [key]).path := by
    refine prefix_induction (tracked_start hp) fun pre c hpre hi => ?_
    rw [exec_concat]
    exact tracked_step (valid_exec pre) hp hi (h c (hpre.subset (by simp)))
  refine forall_prefix_iff ?_ fun pre c hpre hs => ?_
  · rw [exec_nil, settled_iff valid_start (tracked_start hp)]
    refine ⟨fun _ x hx => ?_, fun earlier payload heq => ?_⟩
    · rw [show start.st.pendingAggregate = .object .empty from rfl, valueAt_empty] at hx
      cases hx
    · exact absurd heq (by simp [start])
  · have ht := htracked pre ((List.prefix_append pre [c]).trans hpre)
    rw [exec_concat]
    exact settled_step (valid_exec pre) ht hs (h c (hpre.subset (by simp)))

/-- An update of the `tag_values` aggregate. -/
def aggregateUpdate (agg : Json) : Event :=
  ⟨Event.AGGREGATE_UPDATE, "tag_values",
    Json.ofList [("aggregate", Json.ofList [("data", agg)])]⟩

/-- The equivalence for a tag that is buffered and flushed before another writer
changes it. -/
theorem settled_iff_harmless_flushed :
    let calls : List Call :=
      [.set "a" "k" ⟨.bool true, rfl, Json.noConfusion⟩ .default, .commit 0 0,
        .event (aggregateUpdate (KeyPath.construct ⟨["a", "k"]⟩ (.bool false)))]
    (∀ pre, pre <+: calls → Settled (exec step start pre) "a" "k") ↔
      ∀ pre c, pre ++ [c] <+: calls →
        Harmless (exec step start pre) (KeyPath.mkScoped "a" ["k"]).path c :=
  settled_iff_harmless "a" "k" _ (by simp [Apart])

/-- A tag is written with `flush` and reaches the agent; then another writer changes
it.  The runtime goes on reading its own value, and the flush of another tag sends
that value once more, over the other writer's. -/
theorem own_value_masks_update :
    let calls : List Call :=
      [.set "a" "k" ⟨.bool true, rfl, Json.noConfusion⟩ ⟨true, true, false⟩,
        .event (aggregateUpdate (KeyPath.construct ⟨["a", "k"]⟩ (.bool false)))]
    let more : List Call :=
      [.set "a" "l" ⟨.bool true, rfl, Json.noConfusion⟩ .default, .commit 0 0]
    (∀ c ∈ calls ++ more, Apart (KeyPath.mkScoped "a" ["k"]).path c) ∧
      ¬ Settled (exec step start calls) "a" "k" ∧
      ¬ NoRepeat (KeyPath.mkScoped "a" ["k"]).path (exec step start (calls ++ more)).log := by
  intro calls more
  refine ⟨by decide, fun hs => ?_, fun hn => ?_⟩
  · have hread := hs.1 ((valid_exec calls).allSent_iff.mpr rfl)
    have htrue : (exec step start calls).st.getTag "a" "k" = some (.bool true) := rfl
    have hfalse : expected (KeyPath.mkScoped "a" ["k"]).path (exec step start calls).log =
        some (.bool false) := rfl
    rw [htrue, hfalse] at hread
    cases hread
  · let p := (KeyPath.mkScoped "a" ["k"]).path
    let tag := KeyPath.construct ⟨["a", "k"]⟩ (.bool true)
    let other := KeyPath.construct ⟨["a", "l"]⟩ (.bool true)
    let both := applyDiff tag other false
    have hlog : (exec step start (calls ++ more)).log =
        (([.accepted tag] ++ [.sentNow tag]) ++ [.event (KeyPath.construct ⟨["a", "k"]⟩
          (.bool false))] ++ [.accepted other]) ++ [.flushed both] := rfl
    rw [hlog, noRepeat_flushed] at hn
    have hboth : both.valueAt p = some (.bool true) := rfl
    rcases (fresh_append ..).mp (hn (by rw [hboth]; exact Option.some_ne_none _)) with h | ⟨-, h⟩
    · exact h rfl
    · -- the path was in the payload of the flushing write, and was not set since
      have hsent := ((fresh_append ..).mp ((fresh_append ..).mp h)).2
      have htag : tag.valueAt p = some (.bool true) := rfl
      rw [htag] at hsent
      cases hsent

end TagsSettled
end Doover
