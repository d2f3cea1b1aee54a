import Doover.TagWrites
import Doover.TagsSequential

/-! # A flush whose RPC fails

Each of the three flushes takes its buffer out of the state before the RPC and
does not put it back, so a failed flush never leaves the state as it was
(`failed_flush_forgets`).

What that does to a run of sets and commits is told by the writes that are
`Unsent`: accepted, and in no payload that succeeded since.  Every step keeps them
pending but one, a commit whose flush fails, which drops all of them
(`stillPending_step`).
-/

namespace Doover
namespace TagsFailedFlush
open Json StepRuns

/-! ## One flush -/

/-- The three flushes. -/
inductive Flush where
  | tags
  | immediateLogs
  | logs (now : ℕ)

def Flush.call : Flush → TagsState → Bool → Outcome
  | .tags, st, rpc => st.flushTagsCall rpc
  | .immediateLogs, st, rpc => st.flushImmediateLogsCall rpc
  | .logs now, st, rpc => st.flushLogsCall now rpc

/-- Nothing a flush works on differs. -/
structure Unchanged (st st' : TagsState) : Prop where
  tagValues : st'.tagValues = st.tagValues
  pendingAggregate : st'.pendingAggregate = st.pendingAggregate
  pendingLog : st'.pendingLog = st.pendingLog
  pendingImmediateLog : st'.pendingImmediateLog = st.pendingImmediateLog
  dirty : st'.dirty = st.dirty
  lastLogFlush : st'.lastLogFlush = st.lastLogFlush

/-- A failed flush leaves another state, and the same call again sends nothing. -/
theorem failed_flush_forgets (f : Flush) (st : TagsState) (h : (f.call st false).ok = false) :
    ¬ Unchanged st (f.call st false).st ∧
      ∀ rpc, (f.call (f.call st false).st rpc).requests = [] := by
  cases f with
  | tags =>
    simp only [Flush.call] at h ⊢
    cases hd : st.dirty with
    | false =>
      rw [TagsState.flushTagsCall_of_clean _ _ hd] at h
      cases h
    | true =>
      rw [TagsState.flushTagsCall_of_dirty _ _ hd]
      refine ⟨fun hu => ?_, fun rpc => ?_⟩
      · exact Bool.false_ne_true (hu.dirty.trans hd)
      · rw [TagsState.flushTagsCall_of_clean _ _ rfl]
  | immediateLogs =>
    simp only [Flush.call] at h ⊢
    cases he : isEmptyObject st.pendingImmediateLog with
    | true =>
      rw [TagsState.flushImmediateLogsCall_of_empty _ _ he] at h
      cases h
    | false =>
      rw [TagsState.flushImmediateLogsCall_of_nonempty _ _ he]
      refine ⟨fun hu => ?_, fun rpc => ?_⟩
      · have hlog : emptyObject = st.pendingImmediateLog := hu.pendingImmediateLog
        rw [← hlog] at he
        cases he
      · rw [TagsState.flushImmediateLogsCall_of_empty _ _ rfl]
  | logs now =>
    simp only [Flush.call] at h ⊢
    cases he : isEmptyObject st.pendingLog with
    | true =>
      rw [TagsState.flushLogsCall_of_empty _ _ _ he] at h
      cases h
    | false =>
      rw [TagsState.flushLogsCall_of_nonempty _ _ _ he]
      refine ⟨fun hu => ?_, fun rpc => ?_⟩
      · have hlog : emptyObject = st.pendingLog := hu.pendingLog
        rw [← hlog] at he
        cases he
      · rw [TagsState.flushLogsCall_of_empty _ _ _ rfl]

/-! ## Runs of sets and commits -/

inductive Call where
  | set (tags : IndexMap String Json) (opts : SetTagOptions) (rpc : Bool)
  | commit (env : CommitEnv)

/-- What the writes of a run have come to. -/
inductive Entry where
  /-- A write that was not dropped as unchanged. -/
  | accepted (tags : Json)
  /-- A payload that succeeded. -/
  | sent (payload : Json)

/-- The runtime, and what happened so far. -/
structure Host where
  st : TagsState
  log : List Entry

def start (st : TagsState) : Host :=
  ⟨{ st with pendingAggregate := emptyObject, dirty := false }, []⟩

def step (h : Host) : Call → Host
  | .set tags opts rpc =>
    let o := h.st.setNestedTagsCall (.object tags) opts rpc
    let accepted := if h.st.suppresses (.object tags) opts then [] else [.accepted (.object tags)]
    ⟨o.st, h.log ++ accepted ++ (o.aggregates true).map .sent⟩
  | .commit env =>
    let o := h.st.commitTagsCall env
    ⟨o.st, h.log ++ (o.aggregates true).map .sent⟩

/-- The writes without a payload, by path and value, after one more entry. -/
def noteEntry (unsent : List String → Json → Prop) : Entry → List String → Json → Prop
  | .accepted tags => fun p v => tags.valueAt p = some v ∨ (tags.Misses p ∧ unsent p v)
  | .sent payload => fun p v => unsent p v ∧ payload.valueAt p ≠ some v

/-- The value accepted last at the path is in no payload sent since. -/
def Unsent (log : List Entry) : List String → Json → Prop :=
  log.foldl noteEntry fun _ _ => False

/-- Every accepted write is in a payload that succeeded, or still pending. -/
def StillPending (h : Host) : Prop :=
  ∀ p v, Unsent h.log p v → h.st.pendingAggregate.valueAt p = some v

/-- A commit whose flush fails has no write to lose. -/
def Spares (h : Host) : Call → Prop
  | .commit env => env.flush = false → h.st.dirty = true → ∀ p v, ¬ Unsent h.log p v
  | _ => True

theorem unsent_append (log : List Entry) (e : Entry) :
    Unsent (log ++ [e]) = noteEntry (Unsent log) e := by
  rw [Unsent, List.foldl_append]
  rfl

/-- A set is noted with what it makes pending, so it loses nothing, whatever its answer. -/
theorem stillPending_set {h : Host} (hp : StillPending h) (tags : IndexMap String Json)
    (opts : SetTagOptions) (rpc : Bool) : StillPending (step h (.set tags opts rpc)) := by
  have hset : ∀ p v, noteEntry (Unsent h.log) (.accepted (.object tags)) p v →
      (applyDiff h.st.pendingAggregate (.object tags) false).valueAt p = some v := by
    intro p v hu
    rw [valueAt_applyDiff]
    rcases hu with hv | ⟨hm, hu⟩
    · exact afterWrite_of_valueAt hv _
    · rw [afterWrite_of_misses hm]
      exact hp p v hu
  rw [step]
  cases hsup : h.st.suppresses (.object tags) opts with
  | true =>
    rw [TagsState.setNestedTagsCall_of_suppresses _ _ _ _ hsup, if_pos rfl]
    intro p v hu
    exact hp p v (by simpa [Outcome.aggregates] using hu)
  | false =>
    rw [if_neg Bool.false_ne_true]
    cases hf : opts.flush with
    | false =>
      obtain ⟨st', ho, -, hpend, -⟩ :=
        TagsState.setNestedTagsCall_buffered h.st _ opts rpc hsup hf
      rw [ho]
      intro p v hu
      simp only [Outcome.aggregates, List.filterMap_nil, List.map_nil, List.append_nil,
        unsent_append] at hu
      exact hpend ▸ hset p v hu
    | true =>
      obtain ⟨st', ho, -, hpend, -⟩ :=
        TagsState.setNestedTagsCall_flush h.st _ opts rpc hsup hf
      rw [ho]
      cases rpc with
      | false =>
        intro p v hu
        have hu' : Unsent (h.log ++ [.accepted (.object tags)]) p v := by
          simpa [Outcome.aggregates] using hu
        rw [unsent_append] at hu'
        exact hpend ▸ hset p v hu'
      | true =>
        intro p v hu
        have hu' : Unsent (h.log ++ [.accepted (.object tags)] ++
            [.sent (applyDiff h.st.pendingAggregate (.object tags) false)]) p v := by
          simpa [Outcome.aggregates] using hu
        rw [unsent_append, unsent_append] at hu'
        exact absurd (hset p v hu'.1) hu'.2

/-- A commit keeps what is pending, unless its flush fails. -/
theorem stillPending_commit_iff {h : Host} (hp : StillPending h) (env : CommitEnv) :
    StillPending (step h (.commit env)) ↔ Spares h (.commit env) := by
  obtain ⟨⟨-, hpend, -⟩, hagg⟩ := TagsState.commitTagsCall_stores h.st env
  have hstep : step h (.commit env) = ⟨(h.st.commitTagsCall env).st,
      h.log ++ ((h.st.flushTagsCall env.flush).aggregates true).map .sent⟩ := by
    rw [step, hagg]
  rw [hstep]
  cases hd : h.st.dirty with
  | false =>
    rw [TagsState.flushTagsCall_of_clean _ _ hd] at hpend ⊢
    refine iff_of_true (fun p v hu => ?_) fun _ h => absurd (hd.symm.trans h) Bool.false_ne_true
    exact hpend ▸ hp p v (by simpa [Outcome.aggregates] using hu)
  | true =>
    rw [TagsState.flushTagsCall_of_dirty _ _ hd] at hpend ⊢
    cases henv : env.flush with
    | true =>
      refine iff_of_true (fun p v hu => ?_) fun h => absurd (henv.symm.trans h) Bool.noConfusion
      have hu' : Unsent (h.log ++ [.sent h.st.pendingAggregate]) p v := by
        simpa [Outcome.aggregates] using hu
      rw [unsent_append] at hu'
      exact absurd (hp p v hu'.1) hu'.2
    | false =>
      have hempty : (h.st.commitTagsCall env).st.pendingAggregate = emptyObject := by
        rw [hpend, henv]
        rfl
      constructor
      · intro hafter _ _ p v hu
        have hv := hafter p v (by simpa [Outcome.aggregates] using hu)
        rw [hempty, emptyObject, valueAt_empty] at hv
        cases hv
      · intro hspares p v hu
        exact absurd (by simpa [Outcome.aggregates] using hu) (hspares henv hd p v)

theorem stillPending_step {h : Host} (hp : StillPending h) (c : Call) :
    StillPending (step h c) ↔ Spares h c := by
  cases c with
  | set tags opts rpc => exact iff_of_true (stillPending_set hp tags opts rpc) trivial
  | commit env => exact stillPending_commit_iff hp env

/-- **What a failed flush costs.**  A failed flush never leaves the state as it was,
and the same call again never sends the payload again.  In a run of sets and commits
with any answers, every accepted write is, all along, in a payload that succeeded or
still pending, if and only if no flush fails while a write is unsent. -/
theorem failed_flush (f : Flush) (st : TagsState) (calls : List Call) :
    ((f.call st false).ok = false →
      ¬ Unchanged st (f.call st false).st ∧
        ∀ rpc, (f.call (f.call st false).st rpc).requests = []) ∧
      ((∀ pre, pre <+: calls → StillPending (exec step (start st) pre)) ↔
        ∀ pre c, pre ++ [c] <+: calls → Spares (exec step (start st) pre) c) := by
  refine ⟨failed_flush_forgets f st, forall_prefix_iff ?_ fun pre c _ hp => ?_⟩
  · exact fun p v hu => False.elim hu
  · rw [exec_concat]
    exact stillPending_step hp c

/-- `failed_flush` for the flush of a buffered tag. -/
theorem failed_flush_buffered :
    let st := (TagsState.default.setTagCall "a" "k" (.bool true) .default true).st
    ¬ Unchanged st (Flush.tags.call st false).st ∧
      ∀ rpc, (Flush.tags.call (Flush.tags.call st false).st rpc).requests = [] :=
  (failed_flush .tags _ []).1 rfl

/-- A buffered tag, and a commit whose flush fails: the tag reads as absent, the next
commit sends nothing. -/
theorem flush_failed_lost :
    let set := TagsState.default.setTagCall "a" "k" (.bool true) .default true
    let failed := set.st.flushTagsCall false
    failed.ok = false ∧ ¬ Unchanged set.st failed.st ∧
      (set.st.getTag "a" "k").isSome = true ∧ (failed.st.getTag "a" "k").isSome = false ∧
      (failed.st.commitTagsCall ⟨1, 1, true, true, true, true⟩).aggregates true = [] := by
  refine ⟨rfl, fun h => ?_, rfl, rfl, rfl⟩
  exact Bool.false_ne_true h.dirty

end TagsFailedFlush
end Doover
