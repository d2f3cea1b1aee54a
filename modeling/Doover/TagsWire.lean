import Doover.TagsRuntime
import Doover.StepRuns

/-! # Overlapping calls of the tag manager

Calls run as tasks and overlap at their awaits.  A call is at most two locked
steps, so an interleaving is a list of locked steps of whichever calls move:
`Wire` is the locked state with what is on the wire, and an action is one locked
step or the answer of an RPC.

A write's payload is sent in its first step.  The second step of a flushing write
does not depend on which call it belongs to, so the unanswered ones are a number;
the second step of `flush_tags` applies the payload it sent, so the unanswered
payloads are a list.  An answer nobody waits for changes nothing.
-/

namespace Doover
namespace TagsWire
open Json

/-- One locked step, or an event. -/
inductive Act where
  /-- A call of `set_nested_tags`, up to its RPC. -/
  | set (tags : Json) (opts : SetTagOptions)
  /-- The RPC of a flushing write is answered, and the call returns. -/
  | setAnswered (ok : Bool)
  /-- A call of `flush_tags`, up to its RPC. -/
  | flush
  /-- The RPC of the `i`-th unanswered flush is answered, and the call returns. -/
  | flushAnswered (i : ℕ) (ok : Bool)
  /-- A `tag_values` event. -/
  | tagEvent (ev : Event)
  /-- A `dv-ui-sub` event. -/
  | uiEvent (ev : Event)
  /-- The triggers of a path run, at the start of `set_tag`. -/
  | evaluateLogTriggers (kp : KeyPath) (value : Json)
  | flushImmediateLogs
  | flushLogs (now : ℕ)

structure Wire where
  st : TagsState
  /-- How many flushing writes wait for their answer. -/
  sets : ℕ
  /-- The payloads of the flushes that wait for their answer. -/
  flushes : List Json
  /-- Every payload sent to the aggregate, in order. -/
  sent : List Json

def step (w : Wire) : Act → Wire
  | .set tags opts =>
    match w.st.setNestedTags tags opts with
    | (st, .flush payload) =>
      { w with st := st, sets := w.sets + 1, sent := w.sent ++ [payload] }
    | (st, _) => { w with st := st }
  | .setAnswered ok =>
    if w.sets = 0 then w
    else { w with st := if ok then w.st.setNestedTagsSent else w.st, sets := w.sets - 1 }
  | .flush =>
    match w.st.flushTags with
    | (st, some data) => { w with st := st, flushes := w.flushes ++ [data], sent := w.sent ++ [data] }
    | (st, none) => { w with st := st }
  | .flushAnswered i ok =>
    match w.flushes[i]? with
    | some data =>
      { w with
        st := if ok then w.st.flushTagsSent data else w.st
        flushes := w.flushes.eraseIdx i }
    | none => w
  | .tagEvent ev => { w with st := w.st.onTagEvent ev }
  | .uiEvent ev => { w with st := w.st.onUiSub ev }
  | .evaluateLogTriggers kp value => { w with st := (w.st.evaluateLogTriggers kp value).1 }
  | .flushImmediateLogs => { w with st := w.st.flushImmediateLogs.1 }
  | .flushLogs now => { w with st := (w.st.flushLogs now).1 }

/-! ## What a step does -/

section Steps
variable (w : Wire) (tags : Json) (opts : SetTagOptions)

theorem step_set_st : (step w (.set tags opts)).st = (w.st.setNestedTags tags opts).1 := by
  rw [step]
  split <;> simp [*]

theorem step_set_of_suppresses (h : w.st.suppresses tags opts = true) :
    step w (.set tags opts) = w := by
  rw [step, TagsState.setNestedTags_of_suppresses w.st tags opts h]

/-- A write that is not dropped and does not flush: it is buffered. -/
theorem step_set_buffered (h : w.st.suppresses tags opts = false) (hf : opts.flush = false) :
    ∃ st, step w (.set tags opts) = { w with st := st } ∧ st.tagValues = w.st.tagValues ∧
      st.pendingAggregate = applyDiff w.st.pendingAggregate tags false ∧ st.dirty = true := by
  have hsnd := TagsState.setNestedTags_snd w.st tags opts
  simp only [h, hf, Bool.false_eq_true, if_false] at hsnd
  refine ⟨_, ?_, TagsState.setNestedTags_tagValues w.st tags opts, ?_, ?_⟩
  · rw [step]
    generalize hr : w.st.setNestedTags tags opts = r at hsnd
    obtain ⟨st, out⟩ := r
    cases hsnd
    rfl
  · rw [TagsState.setNestedTags_pendingAggregate, h]
    rfl
  · rw [TagsState.setNestedTags_dirty, h, hf]
    simp

/-- A write that is not dropped and flushes: the whole pending aggregate is sent. -/
theorem step_set_flush (h : w.st.suppresses tags opts = false) (hf : opts.flush = true) :
    ∃ st, step w (.set tags opts) =
        { w with
          st := st, sets := w.sets + 1
          sent := w.sent ++ [applyDiff w.st.pendingAggregate tags false] } ∧
      st.tagValues = w.st.tagValues ∧
      st.pendingAggregate = applyDiff w.st.pendingAggregate tags false ∧
      st.dirty = w.st.dirty := by
  have hsnd := TagsState.setNestedTags_snd w.st tags opts
  simp only [h, hf, Bool.false_eq_true, if_false, if_true] at hsnd
  refine ⟨_, ?_, TagsState.setNestedTags_tagValues w.st tags opts, ?_, ?_⟩
  · rw [step]
    generalize hr : w.st.setNestedTags tags opts = r at hsnd
    obtain ⟨st, out⟩ := r
    cases hsnd
    rfl
  · rw [TagsState.setNestedTags_pendingAggregate, h]
    rfl
  · rw [TagsState.setNestedTags_dirty, h, hf]
    simp

end Steps

theorem step_setAnswered {w : Wire} (h : w.sets ≠ 0) (ok : Bool) :
    step w (.setAnswered ok) =
      { w with st := if ok then w.st.setNestedTagsSent else w.st, sets := w.sets - 1 } :=
  if_neg h

theorem step_setAnswered_of_none {w : Wire} (h : w.sets = 0) (ok : Bool) :
    step w (.setAnswered ok) = w := if_pos h

theorem step_flush_of_dirty {w : Wire} (h : w.st.dirty = true) :
    step w .flush =
      { w with
        st := { w.st with dirty := false, pendingAggregate := emptyObject }
        flushes := w.flushes ++ [w.st.pendingAggregate]
        sent := w.sent ++ [w.st.pendingAggregate] } := by
  rw [step, TagsState.flushTags, h]
  rfl

theorem step_flush_of_clean {w : Wire} (h : w.st.dirty = false) : step w .flush = w := by
  rw [step, TagsState.flushTags, h]
  rfl

theorem step_flushAnswered {w : Wire} {i : ℕ} {data : Json} (h : w.flushes[i]? = some data)
    (ok : Bool) :
    step w (.flushAnswered i ok) =
      { w with
        st := if ok then w.st.flushTagsSent data else w.st
        flushes := w.flushes.eraseIdx i } := by
  rw [step, h]

theorem step_flushAnswered_of_none {w : Wire} {i : ℕ} (h : w.flushes[i]? = none) (ok : Bool) :
    step w (.flushAnswered i ok) = w := by
  rw [step, h]

/-- The steps that touch neither store nor the dirty flag, and send nothing. -/
def Act.isAside : Act → Bool
  | .uiEvent _ | .evaluateLogTriggers .. | .flushImmediateLogs | .flushLogs _ => true
  | _ => false

theorem step_aside {a : Act} (h : a.isAside = true) (w : Wire) :
    ∃ st, step w a = { w with st := st } ∧ st.tagValues = w.st.tagValues ∧
      st.pendingAggregate = w.st.pendingAggregate ∧ st.dirty = w.st.dirty := by
  cases a with
  | uiEvent ev =>
    refine ⟨_, rfl, ?_⟩
    unfold TagsState.onUiSub
    split <;> exact ⟨rfl, rfl, rfl⟩
  | evaluateLogTriggers kp value =>
    obtain ⟨ts, h⟩ := w.st.evaluateLogTriggers_eq kp value
    exact ⟨_, rfl, by rw [h], by rw [h], by rw [h]⟩
  | flushImmediateLogs =>
    obtain ⟨log, h⟩ := w.st.flushImmediateLogs_eq
    exact ⟨_, rfl, by rw [h], by rw [h], by rw [h]⟩
  | flushLogs now =>
    obtain ⟨at_, log, h⟩ := w.st.flushLogs_eq now
    exact ⟨_, rfl, by rw [h], by rw [h], by rw [h]⟩
  | _ => cases h

end TagsWire
end Doover
