import Doover.TagsRuntime
import Doover.StepRuns

/-! # Whole calls of the tag manager

A call that nothing overlaps runs its locked halves one after the other, with the
answer of its RPC between them.  Here each method is the function that does so: it
takes the answers and returns the state, the requests it issued with their answers,
and whether it returned `Ok`.
-/

namespace Doover

/-- What a call sends. -/
inductive Request where
  /-- `update_channel_aggregate` on `tag_values`. -/
  | updateAggregate (data : Json)
  /-- `create_message` on `tag_values`. -/
  | createMessage (data : Json)
  /-- `send_one_shot_message` on `tag_values`. -/
  | oneShotMessage (data : Json)

/-- What a call did. -/
structure Outcome where
  st : TagsState
  /-- The requests issued, each with whether it succeeded. -/
  requests : List (Request × Bool)
  /-- Whether the call returned `Ok`. -/
  ok : Bool

namespace Outcome

/-- The aggregate payloads that were sent, answered by `answer`. -/
def aggregates (o : Outcome) (answer : Bool) : List Json :=
  o.requests.filterMap fun
    | (.updateAggregate data, ok) => if ok = answer then some data else none
    | _ => none

end Outcome

/-- The clocks and the answers a commit meets. -/
structure CommitEnv where
  /-- The monotonic clock, in milliseconds. -/
  instant : ℕ
  /-- The wall clock, in milliseconds. -/
  unixMs : ℚ
  flush : Bool
  live : Bool
  immediate : Bool
  logs : Bool

namespace TagsState

def setNestedTagsCall (st : TagsState) (tags : Json) (opts : SetTagOptions) (rpc : Bool) :
    Outcome :=
  match st.setNestedTags tags opts with
  | (st, .flush payload) =>
    ⟨if rpc then st.setNestedTagsSent else st, [(.updateAggregate payload, rpc)], rpc⟩
  | (st, _) => ⟨st, [], true⟩

def setTagCall (st : TagsState) (appKey key : String) (value : Json) (opts : SetTagOptions)
    (rpc : Bool) : Outcome :=
  let kp := KeyPath.mkScoped appKey [key]
  let r := st.evaluateLogTriggers kp value
  r.1.setNestedTagsCall (kp.construct value) { opts with log := opts.log || r.2 } rpc

def flushTagsCall (st : TagsState) (rpc : Bool) : Outcome :=
  match st.flushTags with
  | (st, some data) =>
    ⟨if rpc then st.flushTagsSent data else st, [(.updateAggregate data, rpc)], rpc⟩
  | (st, none) => ⟨st, [], true⟩

def flushImmediateLogsCall (st : TagsState) (rpc : Bool) : Outcome :=
  match st.flushImmediateLogs with
  | (st, some data) => ⟨st, [(.createMessage data, rpc)], rpc⟩
  | (st, none) => ⟨st, [], true⟩

def flushLogsCall (st : TagsState) (now : ℕ) (rpc : Bool) : Outcome :=
  match st.flushLogs now with
  | (st, some data) => ⟨st, [(.createMessage data, rpc)], rpc⟩
  | (st, none) => ⟨st, [], true⟩

/-- The end-of-loop commit: flush the writes, stream the live tags as far as that
works, and write the log messages that are due. -/
def commitTagsCall (st : TagsState) (env : CommitEnv) : Outcome :=
  let tags := st.flushTagsCall env.flush
  if !tags.ok then tags
  else
    let live := (tags.st.flushLiveTags env.unixMs).toList.map fun data =>
      (Request.oneShotMessage data, env.live)
    let immediate := tags.st.flushImmediateLogsCall env.immediate
    let sent := tags.requests ++ live ++ immediate.requests
    if !immediate.ok then ⟨immediate.st, sent, false⟩
    else if immediate.st.periodicDue env.instant then
      let logs := immediate.st.flushLogsCall env.instant env.logs
      ⟨logs.st, sent ++ logs.requests, logs.ok⟩
    else ⟨immediate.st, sent, true⟩

/-! ## What a call does -/

section Effects
variable (st : TagsState) (tags : Json) (opts : SetTagOptions) (rpc : Bool)

theorem setNestedTagsCall_of_suppresses (h : st.suppresses tags opts = true) :
    st.setNestedTagsCall tags opts rpc = ⟨st, [], true⟩ := by
  rw [setNestedTagsCall, setNestedTags_of_suppresses st tags opts h]

/-- A write that is buffered. -/
theorem setNestedTagsCall_buffered (h : st.suppresses tags opts = false)
    (hf : opts.flush = false) :
    ∃ st', st.setNestedTagsCall tags opts rpc = ⟨st', [], true⟩ ∧
      st'.tagValues = st.tagValues ∧
      st'.pendingAggregate = applyDiff st.pendingAggregate tags false ∧ st'.dirty = true := by
  have hsnd := setNestedTags_snd st tags opts
  simp only [h, hf, Bool.false_eq_true, if_false] at hsnd
  refine ⟨_, ?_, setNestedTags_tagValues st tags opts, ?_, ?_⟩
  · rw [setNestedTagsCall]
    generalize st.setNestedTags tags opts = r at hsnd
    obtain ⟨st', out⟩ := r
    cases hsnd
    rfl
  · rw [setNestedTags_pendingAggregate, h]
    rfl
  · rw [setNestedTags_dirty, h, hf]
    simp

/-- A flushing write, up to the answer: the whole pending aggregate is sent, and it
stays pending. -/
theorem setNestedTagsCall_flush (h : st.suppresses tags opts = false)
    (hf : opts.flush = true) :
    ∃ st', st.setNestedTagsCall tags opts rpc =
        ⟨if rpc then st'.setNestedTagsSent else st',
          [(.updateAggregate (applyDiff st.pendingAggregate tags false), rpc)], rpc⟩ ∧
      st'.tagValues = st.tagValues ∧
      st'.pendingAggregate = applyDiff st.pendingAggregate tags false ∧
      st'.dirty = st.dirty := by
  have hsnd := setNestedTags_snd st tags opts
  simp only [h, hf, Bool.false_eq_true, if_false, if_true] at hsnd
  refine ⟨_, ?_, setNestedTags_tagValues st tags opts, ?_, ?_⟩
  · rw [setNestedTagsCall]
    generalize st.setNestedTags tags opts = r at hsnd
    obtain ⟨st', out⟩ := r
    cases hsnd
    rfl
  · rw [setNestedTags_pendingAggregate, h]
    rfl
  · rw [setNestedTags_dirty, h, hf]
    simp

theorem flushTagsCall_of_clean (h : st.dirty = false) :
    st.flushTagsCall rpc = ⟨st, [], true⟩ := by
  rw [flushTagsCall, flushTags, h]
  rfl

theorem flushTagsCall_of_dirty (h : st.dirty = true) :
    st.flushTagsCall rpc =
      let st' := { st with dirty := false, pendingAggregate := emptyObject }
      ⟨if rpc then st'.flushTagsSent st.pendingAggregate else st',
        [(.updateAggregate st.pendingAggregate, rpc)], rpc⟩ := by
  rw [flushTagsCall, flushTags, h]
  rfl

theorem flushImmediateLogsCall_of_empty (h : isEmptyObject st.pendingImmediateLog = true) :
    st.flushImmediateLogsCall rpc = ⟨st, [], true⟩ := by
  rw [flushImmediateLogsCall, flushImmediateLogs, if_pos h]

theorem flushImmediateLogsCall_of_nonempty
    (h : isEmptyObject st.pendingImmediateLog = false) :
    st.flushImmediateLogsCall rpc =
      ⟨{ st with pendingImmediateLog := emptyObject },
        [(.createMessage st.pendingImmediateLog, rpc)], rpc⟩ := by
  rw [flushImmediateLogsCall, flushImmediateLogs, if_neg (Bool.eq_false_iff.mp h)]

theorem flushLogsCall_of_empty (now : ℕ) (h : isEmptyObject st.pendingLog = true) :
    st.flushLogsCall now rpc = ⟨st, [], true⟩ := by
  rw [flushLogsCall, flushLogs, if_pos h]

theorem flushLogsCall_of_nonempty (now : ℕ) (h : isEmptyObject st.pendingLog = false) :
    st.flushLogsCall now rpc =
      ⟨{ st with lastLogFlush := some now, pendingLog := emptyObject },
        [(.createMessage st.pendingLog, rpc)], rpc⟩ := by
  rw [flushLogsCall, flushLogs, if_neg (Bool.eq_false_iff.mp h)]

/-- A flush of a log bucket touches no store and sends nothing to the aggregate. -/
theorem flushImmediateLogsCall_stores :
    let o := st.flushImmediateLogsCall rpc
    (o.st.tagValues = st.tagValues ∧ o.st.pendingAggregate = st.pendingAggregate ∧
      o.st.dirty = st.dirty) ∧ ∀ answer, o.aggregates answer = [] := by
  cases h : isEmptyObject st.pendingImmediateLog with
  | true =>
    rw [flushImmediateLogsCall_of_empty st rpc h]
    exact ⟨⟨rfl, rfl, rfl⟩, fun _ => rfl⟩
  | false =>
    rw [flushImmediateLogsCall_of_nonempty st rpc h]
    exact ⟨⟨rfl, rfl, rfl⟩, fun _ => rfl⟩

theorem flushLogsCall_stores (now : ℕ) :
    let o := st.flushLogsCall now rpc
    (o.st.tagValues = st.tagValues ∧ o.st.pendingAggregate = st.pendingAggregate ∧
      o.st.dirty = st.dirty) ∧ ∀ answer, o.aggregates answer = [] := by
  cases h : isEmptyObject st.pendingLog with
  | true =>
    rw [flushLogsCall_of_empty st rpc now h]
    exact ⟨⟨rfl, rfl, rfl⟩, fun _ => rfl⟩
  | false =>
    rw [flushLogsCall_of_nonempty st rpc now h]
    exact ⟨⟨rfl, rfl, rfl⟩, fun _ => rfl⟩

end Effects

/-- **A commit, as far as the aggregate goes, is its flush.**  The live tags and the
logs touch no store and send nothing to the aggregate. -/
theorem commitTagsCall_stores (st : TagsState) (env : CommitEnv) :
    let o := st.commitTagsCall env
    let f := st.flushTagsCall env.flush
    (o.st.tagValues = f.st.tagValues ∧ o.st.pendingAggregate = f.st.pendingAggregate ∧
      o.st.dirty = f.st.dirty) ∧ ∀ answer, o.aggregates answer = f.aggregates answer := by
  unfold commitTagsCall
  generalize st.flushTagsCall env.flush = tags
  have hlive : ∀ answer, (((tags.st.flushLiveTags env.unixMs).toList.map fun data =>
      (Request.oneShotMessage data, env.live)).filterMap fun
        | (Request.updateAggregate data, ok) => if ok = answer then some data else none
        | _ => none) = [] := fun answer => by
    cases tags.st.flushLiveTags env.unixMs <;> rfl
  obtain ⟨⟨hv, hp, hd⟩, hi⟩ := flushImmediateLogsCall_stores tags.st env.immediate
  obtain ⟨⟨hv', hp', hd'⟩, hl⟩ :=
    flushLogsCall_stores (tags.st.flushImmediateLogsCall env.immediate).st env.logs env.instant
  simp only [Outcome.aggregates] at hi hl ⊢
  split
  · exact ⟨⟨rfl, rfl, rfl⟩, fun _ => rfl⟩
  · split
    · refine ⟨⟨hv, hp, hd⟩, fun answer => ?_⟩
      rw [List.filterMap_append, List.filterMap_append, hlive, hi, List.append_nil,
        List.append_nil]
    · split
      · refine ⟨⟨hv'.trans hv, hp'.trans hp, hd'.trans hd⟩, fun answer => ?_⟩
        rw [List.filterMap_append, List.filterMap_append, List.filterMap_append, hlive, hi, hl,
          List.append_nil, List.append_nil, List.append_nil]
      · refine ⟨⟨hv, hp, hd⟩, fun answer => ?_⟩
        rw [List.filterMap_append, List.filterMap_append, hlive, hi, List.append_nil,
          List.append_nil]

end TagsState
end Doover
