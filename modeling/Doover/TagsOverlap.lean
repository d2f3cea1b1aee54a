import Doover.TagWrites
import Doover.TagsWire

/-! # What the agent ends up with when calls overlap

Only this runtime writes the aggregate, every RPC succeeds, and the agent applies
the payloads in the order they were sent.  Let the open calls return and flush once
more (`finish`): the agent then holds `drained`, its aggregate with the pending
writes applied, provided the dirty flag will still be set by then.  A flushing
write clears the flag when it is answered, so it will not be while one is
unanswered, whatever was buffered in between.

A path remembers the value written last.  The pending buffer always retains it
(`tracked_step`), but what is drained need not hold it: `delivered_step` says
which steps lose it, and there are two kinds.  One is a write buffered while a
flushing write is unanswered, whose dirty flag is cleared with nothing sent.  The
other is a write dropped as unchanged by a comparison with values that the agent
is not going to hold.
-/

namespace Doover
namespace TagsOverlap
open Json TagsWire StepRuns

/-- The steps of `set_nested_tags` on objects and of `flush_tags`, every RPC
succeeding. -/
def isWriter : Act → Bool
  | .set tags _ => tags.isObject
  | .setAnswered ok => ok
  | .flush => true
  | .flushAnswered _ ok => ok
  | _ => false

/-- The runtime holding the agent's aggregate, with nothing pending. -/
def start (st : TagsState) : Wire :=
  ⟨{ st with pendingAggregate := emptyObject, dirty := false }, 0, [], []⟩

/-- The agent's aggregate: what was sent, applied in order. -/
def agent (agg : Json) (w : Wire) : Json :=
  w.sent.foldl (fun agg payload => applyDiff agg payload false) agg

/-- Every open call returns, and `flush_tags` is called once more. -/
def finish (w : Wire) : List Act :=
  List.replicate w.sets (.setAnswered true) ++
    (List.replicate w.flushes.length (.flushAnswered 0 true) ++ [.flush, .flushAnswered 0 true])

/-- What the agent holds once every open call has returned and one more flush has
succeeded. -/
def drained (agg : Json) (w : Wire) : Json :=
  if w.st.dirty && w.sets == 0 then applyDiff (agent agg w) w.st.pendingAggregate false
  else agent agg w

/-- The writes of a run, in the order of their first locked steps. -/
def writes (acts : List Act) : List Json :=
  acts.filterMap fun
    | .set tags _ => some tags
    | _ => none

/-- Once the open calls of the run have returned and one more flush has succeeded,
the agent holds the value written last at each path. -/
def NothingLost (st : TagsState) (acts : List Act) : Prop :=
  let w := exec step (start st) acts
  ∀ p v, lastWritten (writes acts) p = some v →
    (agent st.tagValues (exec step w (finish w))).holds p v = true

/-! ## Finishing a run -/

theorem agent_concat (agg : Json) (w : Wire) (st : TagsState) (n : ℕ) (fs : List Json)
    (payload : Json) :
    agent agg ⟨st, n, fs, w.sent ++ [payload]⟩ = applyDiff (agent agg w) payload false := by
  simp [agent]

/-- The open flushing writes return. -/
theorem exec_setAnswered (w : Wire) :
    ∃ st, exec step w (List.replicate w.sets (.setAnswered true)) = { w with st := st, sets := 0 } ∧
      st.pendingAggregate = w.st.pendingAggregate ∧ st.dirty = (w.st.dirty && w.sets == 0) := by
  obtain ⟨st, n, fs, sent⟩ := w
  induction n generalizing st with
  | zero => exact ⟨st, rfl, rfl, by simp⟩
  | succ n ih =>
    rw [List.replicate_succ, exec_cons, step_setAnswered (Nat.succ_ne_zero n)]
    obtain ⟨st', hex, hp, hd⟩ := ih st.setNestedTagsSent
    exact ⟨st', hex, hp, by rw [hd]; simp [TagsState.setNestedTagsSent]⟩

/-- The open flushes return. -/
theorem exec_flushAnswered (w : Wire) :
    ∃ st, exec step w (List.replicate w.flushes.length (.flushAnswered 0 true)) =
        { w with st := st, flushes := [] } ∧
      st.pendingAggregate = w.st.pendingAggregate ∧ st.dirty = w.st.dirty := by
  obtain ⟨st, n, fs, sent⟩ := w
  induction fs generalizing st with
  | nil => exact ⟨st, rfl, rfl, rfl⟩
  | cons data fs ih =>
    rw [List.length_cons, List.replicate_succ, exec_cons, step_flushAnswered rfl]
    obtain ⟨st', hex, hp, hd⟩ := ih (st.flushTagsSent data)
    exact ⟨st', hex, hp, hd⟩

/-- Finishing a run answers every call and leaves the agent with what is drained. -/
theorem exec_finish (agg : Json) (w : Wire) :
    (exec step w (finish w)).sets = 0 ∧ (exec step w (finish w)).flushes = [] ∧
      agent agg (exec step w (finish w)) = drained agg w := by
  obtain ⟨st₁, h₁, hp₁, hd₁⟩ := exec_setAnswered w
  obtain ⟨st₂, h₂, hp₂, hd₂⟩ := exec_flushAnswered { w with st := st₁, sets := 0 }
  have hrun : exec step w (finish w) =
      exec step { w with st := st₂, sets := 0, flushes := [] } [.flush, .flushAnswered 0 true] := by
    rw [finish, exec_append, h₁, exec_append]
    exact congrArg (fun w => exec step w _) h₂
  have hd : st₂.dirty = (w.st.dirty && w.sets == 0) := hd₂.trans hd₁
  have hp : st₂.pendingAggregate = w.st.pendingAggregate := hp₂.trans hp₁
  rw [hrun, exec_cons, exec_cons, exec_nil, drained, ← hd]
  cases hdirty : st₂.dirty with
  | false =>
    rw [step_flush_of_clean (w := ⟨st₂, 0, [], w.sent⟩) hdirty, step_flushAnswered_of_none rfl]
    exact ⟨rfl, rfl, rfl⟩
  | true =>
    rw [step_flush_of_dirty (w := ⟨st₂, 0, [], w.sent⟩) hdirty, step_flushAnswered rfl]
    refine ⟨rfl, rfl, ?_⟩
    rw [← hp]
    exact agent_concat ..

/-! ## What every step keeps -/

/-- What the paths remember after a step. -/
def note (last : List String → Option Json) : Act → List String → Option Json
  | .set tags _ => fun p => afterWrite p (last p) tags
  | _ => last

theorem lastWritten_writes_concat (acts : List Act) (a : Act) :
    lastWritten (writes (acts ++ [a])) = note (lastWritten (writes acts)) a := by
  funext p
  cases a <;> simp [writes, note, List.filterMap_append, lastWritten_concat]

/-- What is remembered is a value below the root, and the pending buffer retains it. -/
def Tracked (w : Wire) (last : List String → Option Json) : Prop :=
  ∀ p v, last p = some v →
    v.isObject = false ∧ p ≠ [] ∧ Retains w.st.pendingAggregate p v

/-- What a drop as unchanged has seen: the values are held by the overlay. -/
theorem holds_current_of_suppresses {st : TagsState} {tags : IndexMap String Json}
    {opts : SetTagOptions} (h : st.suppresses (.object tags) opts = true) {p : List String}
    {v : Json} (hv : (Json.object tags).valueAt p = some v) : st.current.holds p v = true := by
  obtain ⟨hl, hvl⟩ := valueAt_eq_some.mp hv
  rw [TagsState.suppresses, Bool.and_eq_true] at h
  exact holds_iff.mpr (lookup_of_isEmptyObject_generateDiff h.2 hl hvl)

theorem tracked_step {w : Wire} {last : List String → Option Json} (h : Tracked w last) {a : Act}
    (ha : isWriter a = true) : Tracked (step w a) (note last a) := by
  cases a with
  | set tags opts =>
    obtain ⟨t, rfl⟩ := exists_of_isObject ha
    intro p v hlast
    rw [step_set_st, TagsState.setNestedTags_pendingAggregate]
    rcases afterWrite_eq_some.mp hlast with hv | ⟨hm, hlast⟩
    · refine ⟨(valueAt_eq_some.mp hv).2, ne_nil_of_valueAt hv, ?_⟩
      split
      · rename_i hs
        exact retains_of_holds_applyDiff (valueAt_eq_some.mp hv).2
          (holds_current_of_suppresses hs hv)
      · exact retains_applyDiff_of_valueAt hv _
    · obtain ⟨hl, hp, hr⟩ := h p v hlast
      refine ⟨hl, hp, ?_⟩
      split
      · exact hr
      · exact hr.applyDiff_of_misses hm
  | setAnswered ok =>
    by_cases hs : w.sets = 0
    · rw [step_setAnswered_of_none hs]
      exact h
    · rw [step_setAnswered hs]
      cases ok <;> exact h
  | flush =>
    cases hd : w.st.dirty with
    | false =>
      rw [step_flush_of_clean hd]
      exact h
    | true =>
      rw [step_flush_of_dirty hd]
      exact fun p v hlast => ⟨(h p v hlast).1, (h p v hlast).2.1, retains_empty (h p v hlast).2.1 v⟩
  | flushAnswered i ok =>
    cases hi : w.flushes[i]? with
    | none =>
      rw [step_flushAnswered_of_none hi]
      exact h
    | some data =>
      rw [step_flushAnswered hi]
      cases ok <;> exact h
  | _ => cases ha

/-! ## Which steps lose a write -/

/-- The step loses no write.  A write is dropped as unchanged only when what the
agent is going to hold has its values; and one is buffered while a flushing write
is unanswered only when the agent has its values already. -/
def Safe (agg : Json) (w : Wire) : Act → Prop
  | .set tags opts =>
    if w.st.suppresses tags opts then
      ∀ p v, tags.valueAt p = some v → (drained agg w).holds p v = true
    else opts.flush = false → w.sets ≠ 0 →
      ∀ p v, tags.valueAt p = some v → (agent agg w).holds p v = true
  | _ => True

/-- The agent is going to hold what the paths remember. -/
def Delivered (agg : Json) (w : Wire) (last : List String → Option Json) : Prop :=
  ∀ p v, last p = some v → (drained agg w).holds p v = true

theorem holds_drained_iff_of_misses {agg : Json} {w : Wire} {p : List String}
    (h : w.st.pendingAggregate.Misses p) (v : Json) :
    (drained agg w).holds p v = (agent agg w).holds p v := by
  unfold drained
  split
  · exact holds_congr (lookup_applyDiff_of_misses h _ _) v
  · rfl

/-- What is remembered is held once the pending writes are applied. -/
theorem holds_agent_applied {agg : Json} {w : Wire} {last : List String → Option Json}
    (ht : Tracked w last) (h : Delivered agg w last) {p : List String} {v : Json}
    (hlast : last p = some v) :
    (applyDiff (agent agg w) w.st.pendingAggregate false).holds p v = true :=
  (ht p v hlast).2.2.holds_applyDiff fun hm => by
    rw [← holds_drained_iff_of_misses hm]
    exact h p v hlast

/-- The same for a path that a new write misses, with that write pending too. -/
theorem holds_agent_applied_of_misses {agg : Json} {w : Wire}
    {last : List String → Option Json} (ht : Tracked w last) (h : Delivered agg w last)
    {tags : Json} {p : List String} {v : Json} (hm : tags.Misses p) (hlast : last p = some v) :
    (applyDiff (agent agg w) (applyDiff w.st.pendingAggregate tags false) false).holds p v =
      true := by
  rcases (ht p v hlast).2.2 with hp | ⟨x, hx, hxv⟩
  · rw [holds_congr (lookup_applyDiff_of_misses (misses_applyDiff hp hm false) _ false),
      ← holds_drained_iff_of_misses hp]
    exact h p v hlast
  · refine holds_iff.mpr ⟨x, lookup_applyDiff_of_valueAt ?_ _, hxv⟩
    rw [valueAt_applyDiff_of_misses hm, hx]

/-- After `set`, the paths that it misses are as they were, so what is delivered
depends on the values it writes. -/
theorem delivered_set_iff {agg : Json} {w' : Wire} {last : List String → Option Json}
    {tags : Json} (hkept : ∀ p v, tags.Misses p → last p = some v →
      (drained agg w').holds p v = true) :
    Delivered agg w' (fun p => afterWrite p (last p) tags) ↔
      ∀ p v, tags.valueAt p = some v → (drained agg w').holds p v = true := by
  constructor
  · exact fun h p v hv => h p v (afterWrite_eq_some.mpr (Or.inl hv))
  · intro h p v hlast
    rcases afterWrite_eq_some.mp hlast with hv | ⟨hm, hlast⟩
    · exact h p v hv
    · exact hkept p v hm hlast

/-- A write that is sent with everything pending is delivered, and so is what it leaves. -/
theorem delivered_of_drained_eq {agg : Json} {w w' : Wire} {last : List String → Option Json}
    (ht : Tracked w last) (h : Delivered agg w last) {t : IndexMap String Json}
    (hdrained : drained agg w' =
      applyDiff (agent agg w) (applyDiff w.st.pendingAggregate (.object t) false) false) :
    Delivered agg w' (fun p => afterWrite p (last p) (.object t)) := by
  refine (delivered_set_iff fun p v hm hlast => ?_).mpr fun p v hv => ?_
  · rw [hdrained]
    exact holds_agent_applied_of_misses ht h hm hlast
  · rw [hdrained]
    exact holds_of_lookup (lookup_applyDiff_of_valueAt (valueAt_applyDiff_of_valueAt hv _) _)

theorem delivered_step {agg : Json} {w : Wire} {last : List String → Option Json}
    (ht : Tracked w last) (h : Delivered agg w last) {a : Act} (ha : isWriter a = true) :
    Delivered agg (step w a) (note last a) ↔ Safe agg w a := by
  cases a with
  | set tags opts =>
    obtain ⟨t, rfl⟩ := exists_of_isObject ha
    have ht' := tracked_step ht ha
    rw [note, Safe]
    cases hs : w.st.suppresses (.object t) opts with
    | true =>
      rw [step_set_of_suppresses w _ opts hs, if_pos rfl]
      exact delivered_set_iff fun p v _ hlast => h p v hlast
    | false =>
      rw [if_neg Bool.false_ne_true]
      cases hf : opts.flush with
      | true =>
        -- the whole pending aggregate is sent, this write and the earlier ones with it
        obtain ⟨st, hst, -, hp, -⟩ := step_set_flush w _ opts hs hf
        have hdrained : drained agg (step w (.set (.object t) opts)) =
            applyDiff (agent agg w) (applyDiff w.st.pendingAggregate (.object t) false) false := by
          rw [hst, drained, if_neg (by simp), agent_concat]
        exact iff_of_true (delivered_of_drained_eq ht h hdrained) fun h => absurd h (by simp)
      | false =>
        obtain ⟨st, hst, -, hp, hd⟩ := step_set_buffered w _ opts hs hf
        by_cases hn : w.sets = 0
        · -- the flag stays set until the flush that sends this write
          have hdrained : drained agg (step w (.set (.object t) opts)) =
              applyDiff (agent agg w) (applyDiff w.st.pendingAggregate (.object t) false)
                false := by
            rw [hst, drained, if_pos (by simp [hd, hn]), hp]
            rfl
          exact iff_of_true (delivered_of_drained_eq ht h hdrained) fun _ h => absurd hn h
        · -- an answer will clear the flag with this write still pending
          have hbefore : drained agg w = agent agg w := if_neg (by simp [hn])
          have hdrained : drained agg (step w (.set (.object t) opts)) = agent agg w := by
            rw [hst]
            exact if_neg (by simp [hn])
          rw [delivered_set_iff fun p v _ hlast => by
            rw [hdrained, ← hbefore]
            exact h p v hlast, hdrained]
          exact ⟨fun h _ _ => h, fun h => h rfl hn⟩
  | setAnswered ok =>
    obtain rfl : ok = true := ha
    refine iff_of_true ?_ trivial
    by_cases hs : w.sets = 0
    · rw [step_setAnswered_of_none hs]
      exact h
    · -- the flag is cleared, but it was not going to survive anyway
      rw [step_setAnswered hs]
      intro p v hlast
      have := h p v hlast
      rw [drained, if_neg (by simp [hs])] at this
      exact this
  | flush =>
    refine iff_of_true ?_ trivial
    cases hd : w.st.dirty with
    | false =>
      rw [step_flush_of_clean hd]
      exact h
    | true =>
      rw [step_flush_of_dirty hd]
      intro p v hlast
      rw [drained, if_neg (by simp), agent_concat]
      exact holds_agent_applied ht h hlast
  | flushAnswered i ok =>
    refine iff_of_true ?_ trivial
    cases hi : w.flushes[i]? with
    | none =>
      rw [step_flushAnswered_of_none hi]
      exact h
    | some data =>
      rw [step_flushAnswered hi]
      cases ok <;> exact h
  | _ => cases ha

/-! ## Runs -/

theorem tracked_exec (st : TagsState) {acts : List Act} (h : ∀ a ∈ acts, isWriter a = true) :
    Tracked (exec step (start st) acts) (lastWritten (writes acts)) := by
  induction acts using List.reverseRecOn with
  | nil => exact fun p v hlast => by cases hlast
  | append_singleton acts a ih =>
    rw [exec_concat, lastWritten_writes_concat]
    exact tracked_step (ih fun b hb => h b (List.mem_append_left _ hb)) (h a (by simp))

theorem nothingLost_iff_delivered (st : TagsState) (acts : List Act) :
    NothingLost st acts ↔
      Delivered st.tagValues (exec step (start st) acts) (lastWritten (writes acts)) := by
  rw [NothingLost, Delivered]
  simp only [(exec_finish st.tagValues _).2.2]

/-- **Which runs lose no write.**  However the calls of a run overlap: whenever one
lets the open calls return and flushes once more, the agent holds the value written
last at each path, if and only if every step of the run is `Safe`. -/
theorem nothingLost_iff (st : TagsState) (acts : List Act) (h : ∀ a ∈ acts, isWriter a = true) :
    (∀ pre, pre <+: acts → NothingLost st pre) ↔
      ∀ pre a, pre ++ [a] <+: acts → Safe st.tagValues (exec step (start st) pre) a := by
  refine forall_prefix_iff ?_ fun pre a hpre hlost => ?_
  · exact fun p v hlast => by cases hlast
  · have hwriters : ∀ b ∈ pre ++ [a], isWriter b = true := fun b hb => h b (hpre.subset hb)
    have htracked := tracked_exec st fun b hb => hwriters b (List.mem_append_left _ hb)
    rw [nothingLost_iff_delivered] at hlost ⊢
    rw [exec_concat, lastWritten_writes_concat]
    exact delivered_step htracked hlost (hwriters a (by simp))

/-- The equivalence for two flushing writes that overlap each other, the second one sent
while a flush is unanswered too. -/
theorem nothingLost_iff_overlap :
    let acts : List Act :=
      [.set (KeyPath.construct ⟨["a"]⟩ (.bool true)) .default, .flush,
        .set (KeyPath.construct ⟨["b"]⟩ (.bool true)) ⟨true, true, false⟩, .flushAnswered 0 true,
        .set (KeyPath.construct ⟨["a"]⟩ (.bool false)) ⟨true, true, false⟩, .setAnswered true,
        .setAnswered true]
    (∀ a ∈ acts, isWriter a = true) ∧
      ((∀ pre, pre <+: acts → NothingLost .default pre) ↔
        ∀ pre a, pre ++ [a] <+: acts → Safe emptyObject (exec step (start .default) pre) a) :=
  ⟨by decide, nothingLost_iff .default _ (by decide)⟩

/-- A write buffered while a flushing write is unanswered is lost: the answer clears
the dirty flag, and the flush afterwards sends nothing. -/
theorem write_lost_behind_flush :
    let acts : List Act :=
      [.set (KeyPath.construct ⟨["a"]⟩ (.bool true)) ⟨true, true, false⟩,
        .set (KeyPath.construct ⟨["b"]⟩ (.bool true)) .default, .setAnswered true]
    (∀ a ∈ acts, isWriter a = true) ∧ PrefixFree (writes acts) ∧
      (exec step (start .default) acts).sets = 0 ∧
      (exec step (start .default) acts).flushes = [] ∧ ¬ NothingLost .default acts := by
  intro acts
  refine ⟨by decide, ?_, by decide, ?_, ?_⟩
  · exact prefixFree_construct [(["a"], .bool true), (["b"], .bool true)] (by decide) (by decide)
  · rfl
  · intro h
    have hlost : (agent emptyObject (exec step (exec step (start .default) acts)
        (finish (exec step (start .default) acts)))).holds ["b"] (.bool true) = false := by decide
    exact Bool.false_ne_true (hlost.symm.trans (h ["b"] (.bool true) (by rfl)))

end TagsOverlap
end Doover
