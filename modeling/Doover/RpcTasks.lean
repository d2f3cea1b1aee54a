import Doover.RpcCommands
import Doover.StepRuns

/-! # The tasks of the RPC manager

Every event of a channel is handled on a task of its own, and calls run beside them.
A run of the manager is an interleaving of their steps.  A step is what a task does
between two points where another may come in: one use of the manager's lock or of a
context's flag, or one await.

A request is served in stages.  It passes the filter, is put in `inflight`, the handler
runs, it is taken out again, and the response is checked and then written
(`Service.next`).  The handler reports through its context, and so does anything it gave
a clone to, for as long as a clone is held.  A status update is looked up in `inflight`
when it withdraws a command, and marks the context it finds there; any other terminal
update goes to the call that waits for it (`handleResponse`).  Between the test whether
a write is allowed and the write itself, which is not under the lock, a write waits in
`checked`.

One task per event is there from the start: before its first step a task is as good as
an event not yet delivered.

What a step can do to a task is said once (`TaskStep`, `taskStep_step`); invariants of the
tasks are cases on it.
-/

namespace Doover
open Json

/-! ## Errors and status payloads -/

structure RpcError where
  code : String
  message : String
deriving DecidableEq

namespace RpcError

/-- The error a cancelled command unwinds with. -/
def cancelled (method : String) : RpcError :=
  ⟨"CANCELLED", "RPC call '" ++ method ++ "' was cancelled by the caller"⟩

/-- `Display`. -/
def text (e : RpcError) : String := e.code ++ ": " ++ e.message

end RpcError

/-- An `i64` as a value. -/
def ofI64 (x : ℤ) : Json :=
  ofInt (Int.bmod x (2 ^ 64)) ⟨by have := Int.le_bmod (x := x) (m := 2 ^ 64); omega,
    by have := Int.bmod_lt (x := x) (m := 2 ^ 64); omega⟩

def statusPayload (code : String) (message : Json) : Json :=
  Json.ofList [("code", .string code), ("message", message)]

/-- A call of `update_message`. -/
structure MessageUpdate where
  channel : String
  id : ℕ
  data : Json

/-- `send_result`. -/
def sendResult (channel : String) (id : ℕ) (response : Json) : MessageUpdate :=
  ⟨channel, id, Json.ofList [("status", statusPayload "success" .null), ("response", response)]⟩

/-- `send_error`. -/
def sendError (channel : String) (id : ℕ) (e : RpcError) : MessageUpdate :=
  ⟨channel, id, Json.ofList
    [("status", statusPayload "error"
        (Json.ofList [("code", .string e.code), ("message", .string e.message)])),
      ("response", .object .empty)]⟩

/-! ## Contexts -/

/-- An intermediate status a handler reports. -/
inductive Report where
  | progress (text : Option String) (fields : Json)
  | acknowledge (now : ℤ)
  /-- `waitMs` is `(seconds * 1000.0) as i64`. -/
  | defer (now waitMs : ℤ)

/-- The payload of a report; progress fields must be an object. -/
def Report.data : Report → Option Json
  | .progress text fields => do
    let message ← match fields with
      | .object m => some m
      | .null => some .empty
      | _ => none
    let message := text.elim message fun t => message.insert "text" (.string t)
    some (Json.ofList [("status", statusPayload "pending" (.object message))])
  | .acknowledge now =>
    some (Json.ofList
      [("status", statusPayload "acknowledged" (Json.ofList [("timestamp", ofI64 now)]))])
  | .defer now waitMs =>
    some (Json.ofList
      [("status", statusPayload "deferred"
        (Json.ofList [("until", ofI64 (now + waitMs)), ("at", ofI64 now)]))])

structure RpcContext (H : Type) where
  request : RpcRequest H
  /-- Set when the issuer withdraws the command, to the body of the status. -/
  cancelled : Option Json
  /-- The handler, or something it gave a clone to, still has the context. -/
  held : Bool

namespace RpcContext
variable {H : Type} (ctx : RpcContext H)

def isCancelled : Bool := ctx.cancelled.isSome

def markCancelled (status : Json) : RpcContext H :=
  { ctx with
    cancelled := match status.get? "message" with
      | some (.object m) => some (.object m)
      | _ => some (.object .empty) }

/-- Once cancelled, the message carries the canceller's terminal status. -/
def mayWrite : Bool := !ctx.isCancelled

/-- The write `progress`, `acknowledge` and `defer` come to, if any. -/
def report (r : Report) : Option MessageUpdate := do
  let id ← ctx.request.messageId
  guard ctx.mayWrite
  let data ← r.data
  some ⟨ctx.request.channel, id, data⟩

end RpcContext

theorem RpcContext.isCancelled_markCancelled {H : Type} (ctx : RpcContext H) (status : Json) :
    (ctx.markCancelled status).isCancelled = true := by
  rw [RpcContext.markCancelled, RpcContext.isCancelled]
  split <;> rfl

theorem RpcContext.isCancelled_eq_false {H : Type} {ctx : RpcContext H} :
    ctx.isCancelled = false ↔ ctx.cancelled = none := by
  rw [RpcContext.isCancelled, Option.isSome_eq_false_iff, Option.isNone_iff_eq_none]

/-- A context is written through only before its cancellation, and to its own message. -/
theorem RpcContext.report_eq_some {H : Type} {ctx : RpcContext H} {r : Report}
    {u : MessageUpdate} (h : ctx.report r = some u) :
    ctx.request.messageId = some u.id ∧ ctx.cancelled = none := by
  rw [RpcContext.report] at h
  simp only [Option.bind_eq_bind, Option.bind_eq_some_iff, Option.guard_eq_some'] at h
  obtain ⟨id, hid, -, hwrite, data, -, heq⟩ := h
  cases heq
  rw [RpcContext.mayWrite, Bool.not_eq_true'] at hwrite
  exact ⟨hid, RpcContext.isCancelled_eq_false.mp hwrite⟩

/-! ## Serving a request -/

/-- Where the task of an accepted request is. -/
inductive Stage where
  /-- Past the filter, not in `inflight`. -/
  | accepted
  | running
  /-- The handler has returned, the request is in `inflight`. -/
  | returned (result : Except RpcError Json)
  | untracked (result : Except RpcError Json)
  /-- The handler has failed, and whom to tell is decided. -/
  | failed (e : RpcError) (shouldRespond : Option ℕ)
  /-- Nothing is left to decide. -/
  | finished

structure Service (H : Type) where
  ctx : RpcContext H
  stage : Stage

inductive ServiceAct where
  | track
  | report (r : Report)
  | returns (result : Except RpcError Json)
  /-- The handler panics, and its task with it; nothing takes the request out again. -/
  | panics
  | untrack
  | checkResponse
  | checkFailure
  /-- The last clone of the context is dropped. -/
  | drop

namespace Service
variable {H : Type} (s : Service H)

/-- A step of the task, and the write it has decided on. -/
def next : ServiceAct → Service H × Option MessageUpdate
  | .track =>
    match s.stage with
    | .accepted => ({ s with stage := .running }, none)
    | _ => (s, none)
  | .report r =>
    match s.stage with
    | .accepted => (s, none)
    | _ => (s, if s.ctx.held then s.ctx.report r else none)
  | .returns result =>
    match s.stage with
    | .running => ({ s with stage := .returned result }, none)
    | _ => (s, none)
  | .panics =>
    match s.stage with
    | .running => ({ s with stage := .finished }, none)
    | _ => (s, none)
  | .untrack =>
    match s.stage with
    | .returned result => ({ s with stage := .untracked result }, none)
    | _ => (s, none)
  | .checkResponse =>
    match s.stage with
    | .untracked result =>
      let shouldRespond := s.ctx.request.messageId.filter fun _ => !s.ctx.isCancelled
      match result with
      | .ok response =>
        ({ s with stage := .finished },
          shouldRespond.map fun id => sendResult s.ctx.request.channel id response)
      | .error e => ({ s with stage := .failed e shouldRespond }, none)
    | _ => (s, none)
  | .checkFailure =>
    match s.stage with
    | .failed e shouldRespond =>
      ({ s with stage := .finished },
        if s.ctx.isCancelled then none
        else shouldRespond.map fun id => sendError s.ctx.request.channel id e)
    | _ => (s, none)
  | .drop =>
    match s.stage with
    | .accepted | .running => (s, none)
    | _ => ({ s with ctx := { s.ctx with held := false } }, none)

/-- What the step does to `inflight`, for the task with this number. -/
def inflightAfter (task : ℕ) (inflight : IndexMap ℕ ℕ) : ServiceAct → IndexMap ℕ ℕ
  | .track =>
    match s.stage, s.ctx.request.requestMessageId with
    | .accepted, some id => inflight.insert id task
    | _, _ => inflight
  | .untrack =>
    match s.stage, s.ctx.request.requestMessageId with
    | .returned _, some id => inflight.swapRemove id
    | _, _ => inflight
  | _ => inflight

/-- Its own steps do not cancel a request. -/
theorem next_isCancelled (s : Service H) (b : ServiceAct) :
    (s.next b).1.ctx.isCancelled = s.ctx.isCancelled := by
  obtain ⟨ctx, stage⟩ := s
  cases b with
  | checkResponse =>
    cases stage with
    | untracked result => cases result <;> rfl
    | _ => rfl
  | _ => cases stage <;> rfl

end Service

/-! ## Status updates -/

/-- The outcome a status stands for, if it is terminal.  `valueToString` writes a value
as JSON text. -/
def responseOutcome (valueToString : Json → String) (data status : Json) :
    Option (Except RpcError Json) :=
  let code := ((status.get? "code").bind asStr).getD ""
  let valueToMessage := fun v : Json => v.asStr.getD (valueToString v)
  if code ∈ ["sent", "acknowledged", "deferred", "pending"] then none
  else if statusIsCancelled status then
    some (.error (.cancelled (((data.get? "method").bind asStr).getD "unknown")))
  else if code = "success" then some (.ok ((data.get? "response").getD (.object .empty)))
  else if code = "error" then
    some (.error (match status.get? "message" with
      | some (.object m) =>
        ⟨((m.get? "code").bind asStr).getD "UNKNOWN", ((m.get? "message").map valueToMessage).getD ""⟩
      | some other => ⟨"UNKNOWN", valueToMessage other⟩
      | none => ⟨"UNKNOWN", ""⟩))
  else none

/-- The id and the status of a status update. -/
def statusOf (ev : Event) : Option (ℕ × Json × Json) := do
  let data ← ev.messageData
  let status ← data.get? "status"
  let id ← ev.messageId
  some (id, data, status)

theorem messageId_of_statusOf {ev : Event} {id : ℕ} {data status : Json}
    (h : statusOf ev = some (id, data, status)) : ev.messageId = some id := by
  simp only [statusOf, Option.bind_eq_bind, Option.bind_eq_some_iff] at h
  obtain ⟨data', -, status', -, id', hid, heq⟩ := h
  cases heq
  exact hid

theorem code_of_statusIsCancelled {status : Json} (h : statusIsCancelled status = true) :
    (status.get? "code").bind asStr = some "error" := by
  rw [statusIsCancelled] at h
  split at h
  · cases h
  · rename_i hcode
    exact not_not.mp hcode

/-! ## The manager -/

/-- Where the task of an event is. -/
inductive Phase (H : Type) where
  | start
  | serving (s : Service H)
  /-- A withdrawn command was found in `inflight`; its context is task `target`'s. -/
  | marking (target : ℕ) (status : Json)
  /-- A terminal update is about to be taken to the call that waits for it. -/
  | resolving (id : ℕ) (result : Except RpcError Json)
  | done

structure RpcTask (H : Type) where
  event : Event
  phase : Phase H

/-- Where a call is. -/
inductive CallPhase where
  | creating
  /-- The agent has created the message; the call has not registered for the response. -/
  | created (id : ℕ)
  /-- Registered, with what was sent to it.  Ids being distinct, nothing else removes
  its entry, so its sender is not dropped. -/
  | waiting (id : ℕ) (slot : Option (Except RpcError Json))
  | received (id : ℕ) (result : Except RpcError Json)
  | elapsed (id : ℕ)
  | returned (id : ℕ) (result : Except RpcError Json)
  | timedOut (id : ℕ)
  /-- `create_message` has failed. -/
  | failed (e : String)

/-- What `call_with` returns; `timeoutSecs` is the timeout as text. -/
def CallPhase.result (method timeoutSecs : String) : CallPhase → Option (Except String Json)
  | .returned _ (.ok response) => some (.ok response)
  | .returned _ (.error e) => some (.error e.text)
  | .timedOut _ =>
    some (.error ("TIMEOUT: RPC call '" ++ method ++ "' timed out after " ++ timeoutSecs ++ "s"))
  | .failed e => some (.error e)
  | _ => none

/-- The message of a call, once the agent has created it. -/
def CallPhase.messageId : CallPhase → Option ℕ
  | .creating | .failed _ => none
  | .created id | .waiting id _ | .received id _ | .elapsed id | .returned id _ | .timedOut id =>
    some id

inductive CallAct where
  | created (id : ℕ)
  | createFailed (e : String)
  | register
  | receive
  | elapse
  | finish

structure RpcState (H : Type) where
  tasks : List (RpcTask H)
  calls : List CallPhase
  /-- The commands being served, by message id: the number of the task. -/
  inflight : IndexMap ℕ ℕ
  /-- The calls waiting, by message id. -/
  pending : IndexMap ℕ ℕ
  /-- Writes that were allowed and are not yet made. -/
  checked : List MessageUpdate
  /-- The `update_message` calls made. -/
  updates : List MessageUpdate

inductive RpcAct where
  /-- The first step of an event's task, at a clock value. -/
  | handle (task : ℕ) (now : ℤ)
  | serve (task : ℕ) (a : ServiceAct)
  | mark (task : ℕ)
  | resolve (task : ℕ)
  | issue (n : ℕ)
  | call (c : ℕ) (a : CallAct)

namespace RpcState
variable {H : Type}

/-- One task per event, and `calls` calls about to be made. -/
def init (H : Type) (events : List Event) (calls : ℕ) : RpcState H where
  tasks := events.map fun ev => ⟨ev, .start⟩
  calls := List.replicate calls .creating
  inflight := .empty
  pending := .empty
  checked := []
  updates := []

/-- What `handle_response` decides about a status update: to mark the context of the
command it withdraws, or to take its outcome to a call. -/
def handleResponse (valueToString : Json → String) (inflight : IndexMap ℕ ℕ) (ev : Event) :
    Phase H :=
  match statusOf ev with
  | none => .done
  | some (id, data, status) =>
    match (if statusIsCancelled status then inflight.get? id else none) with
    | some target => .marking target status
    | none =>
      match responseOutcome valueToString data status with
      | some result => .resolving id result
      | none => .done

/-- The first step of `handle_event`. -/
def handleEvent (m : RpcManager H) (valueToString : Json → String) (inflight : IndexMap ℕ ℕ)
    (now : ℤ) (ev : Event) : Phase H :=
  if ev.isMessageCreate || ev.isOneShot then
    match m.acceptRequest now ev with
    | some request => .serving ⟨⟨request, none, true⟩, .accepted⟩
    | none => .done
  else if ev.isMessageUpdate then handleResponse valueToString inflight ev
  else .done

def setPhase (tasks : List (RpcTask H)) (i : ℕ) (phase : Phase H) : List (RpcTask H) :=
  tasks.modify i fun t => { t with phase }

/-- A cancellation reaches the context a task runs with. -/
def markContext (status : Json) (t : RpcTask H) : RpcTask H :=
  match t.phase with
  | .serving s => { t with phase := .serving { s with ctx := s.ctx.markCancelled status } }
  | _ => t

/-- The agent gives a message an id that no message had. -/
def fresh (w : RpcState H) (id : ℕ) : Bool :=
  w.calls.all (fun c => c.messageId != some id) &&
    w.tasks.all fun t => match t.phase with
      | .start => true
      | _ => t.event.messageId != some id

/-- A result is sent to a call; one that has given up does not get it. -/
def send (result : Except RpcError Json) : CallPhase → CallPhase
  | .waiting id none => .waiting id (some result)
  | c => c

def stepCall (w : RpcState H) (c : ℕ) (a : CallAct) : RpcState H :=
  match w.calls[c]?, a with
  | some .creating, .created id =>
    if w.fresh id then { w with calls := w.calls.set c (.created id) } else w
  | some .creating, .createFailed e => { w with calls := w.calls.set c (.failed e) }
  | some (.created id), .register =>
    { w with calls := w.calls.set c (.waiting id none), pending := w.pending.insert id c }
  | some (.waiting id (some result)), .receive =>
    { w with calls := w.calls.set c (.received id result) }
  | some (.waiting id none), .elapse => { w with calls := w.calls.set c (.elapsed id) }
  | some (.received id result), .finish =>
    { w with calls := w.calls.set c (.returned id result), pending := w.pending.swapRemove id }
  | some (.elapsed id), .finish =>
    { w with calls := w.calls.set c (.timedOut id), pending := w.pending.swapRemove id }
  | _, _ => w

/-- A step of the task with this number. -/
def stepTask (m : RpcManager H) (valueToString : Json → String) (w : RpcState H) (i : ℕ)
    (t : RpcTask H) : RpcAct → RpcState H
  | .handle _ now =>
    match t.phase with
    | .start =>
      { w with
        tasks := setPhase w.tasks i (handleEvent m valueToString w.inflight now t.event) }
    | _ => w
  | .serve _ a =>
    match t.phase with
    | .serving s =>
      { w with
        tasks := setPhase w.tasks i (.serving (s.next a).1)
        inflight := s.inflightAfter i w.inflight a
        checked := w.checked ++ (s.next a).2.toList }
    | _ => w
  | .mark _ =>
    match t.phase with
    | .marking target status =>
      { w with tasks := (setPhase w.tasks i .done).modify target (markContext status) }
    | _ => w
  | .resolve _ =>
    match t.phase with
    | .resolving id result =>
      match w.pending.get? id with
      | some c =>
        { w with
          tasks := setPhase w.tasks i .done
          pending := w.pending.swapRemove id
          calls := w.calls.modify c (send result) }
      | none => { w with tasks := setPhase w.tasks i .done }
    | _ => w
  | _ => w

/-- **One step.** -/
def step (m : RpcManager H) (valueToString : Json → String) (w : RpcState H) (a : RpcAct) :
    RpcState H :=
  match a with
  | .issue n =>
    match w.checked[n]? with
    | some u => { w with checked := w.checked.eraseIdx n, updates := w.updates ++ [u] }
    | none => w
  | .call c a => w.stepCall c a
  | .handle i _ | .serve i _ | .mark i | .resolve i =>
    match w.tasks[i]? with
    | some t => w.stepTask m valueToString i t a
    | none => w

/-! ## What a step leaves alone -/

variable {m : RpcManager H} {valueToString : Json → String} {w : RpcState H}

/-- An entry after one was set is the one set, or an old one elsewhere. -/
theorem of_getElem?_set {α : Type} {l : List α} {i j : ℕ} {x y : α} (h : (l.set i x)[j]? = some y) :
    (j = i ∧ y = x) ∨ (j ≠ i ∧ l[j]? = some y) := by
  by_cases hij : j = i
  · rw [hij, List.getElem?_set_self'] at h
    obtain ⟨x', -, heq⟩ := Option.map_eq_some_iff.mp h
    exact .inl ⟨hij, heq.symm⟩
  · rw [List.getElem?_set_ne (Ne.symm hij)] at h
    exact .inr ⟨hij, h⟩

theorem modify_of_getElem? {α : Type} {l : List α} {i : ℕ} {x : α} (h : l[i]? = some x)
    (f : α → α) : l.modify i f = l.set i (f x) := by
  refine List.ext_getElem? fun j => ?_
  rw [List.getElem?_modify, List.getElem?_set]
  by_cases hij : i = j
  · subst hij
    rw [if_pos rfl, h, if_pos (List.getElem?_eq_some_iff.mp h).1]
    simp
  · simp [hij]

/-- A task after one of them has changed is an old one, or the changed one. -/
theorem mem_modify {tasks : List (RpcTask H)} {i : ℕ} {f : RpcTask H → RpcTask H}
    {t : RpcTask H} (h : t ∈ tasks.modify i f) :
    t ∈ tasks ∨ ∃ t₀, tasks[i]? = some t₀ ∧ t = f t₀ := by
  obtain ⟨j, hj⟩ := List.mem_iff_getElem?.mp h
  rw [List.getElem?_modify] at hj
  obtain ⟨t₀, ht₀, heq⟩ := Option.map_eq_some_iff.mp hj
  by_cases hij : i = j
  · subst hij
    rw [if_pos rfl] at heq
    exact .inr ⟨t₀, ht₀, heq.symm⟩
  · rw [if_neg hij] at heq
    exact .inl (heq ▸ List.mem_of_getElem? ht₀)

/-- A task that the change does not change is left. -/
theorem mem_modify_of_mem {tasks : List (RpcTask H)} {i : ℕ} {f : RpcTask H → RpcTask H}
    {t : RpcTask H} (h : t ∈ tasks) (hfix : tasks[i]? = some t → f t = t) :
    t ∈ tasks.modify i f := by
  obtain ⟨j, hj⟩ := List.mem_iff_getElem?.mp h
  refine List.mem_of_getElem? (i := j) ?_
  rw [List.getElem?_modify, hj]
  by_cases hij : i = j
  · subst hij
    simp [hfix hj]
  · simp [hij]

theorem getElem?_setPhase_self {tasks : List (RpcTask H)} {i : ℕ} {t : RpcTask H}
    (h : tasks[i]? = some t) (phase : Phase H) :
    (setPhase tasks i phase)[i]? = some { t with phase } := by
  rw [setPhase, List.getElem?_modify, h]
  simp

theorem getElem?_setPhase_of_ne {tasks : List (RpcTask H)} {i j : ℕ} (hij : j ≠ i)
    (phase : Phase H) : (setPhase tasks i phase)[j]? = tasks[j]? := by
  rw [setPhase, List.getElem?_modify]
  cases tasks[j]? with
  | none => rfl
  | some t => simp [Ne.symm hij]

/-- A call touches neither the tasks nor the writes. -/
theorem stepCall_frame (w : RpcState H) (c : ℕ) (a : CallAct) :
    (w.stepCall c a).tasks = w.tasks ∧ (w.stepCall c a).inflight = w.inflight ∧
      (w.stepCall c a).checked = w.checked ∧ (w.stepCall c a).updates = w.updates := by
  unfold stepCall
  split
  · split <;> exact ⟨rfl, rfl, rfl, rfl⟩
  all_goals exact ⟨rfl, rfl, rfl, rfl⟩

/-! ## What a step does to a task -/

section TaskSteps
variable {i j : ℕ} {ev : Event} {phase : Phase H}

/-- A status update is no request. -/
theorem handleEvent_of_isMessageUpdate {inflight : IndexMap ℕ ℕ} (now : ℤ)
    (h : ev.isMessageUpdate = true) :
    handleEvent m valueToString inflight now ev = handleResponse valueToString inflight ev := by
  have hrequest : ¬ (ev.isMessageCreate || ev.isOneShot) = true := by
    rw [Event.isMessageUpdate, beq_iff_eq] at h
    rw [Event.isMessageCreate, Event.isOneShot, h]
    exact Bool.false_ne_true
  rw [handleEvent, if_neg hrequest, if_pos h]

theorem step_handle (h : w.tasks[i]? = some ⟨ev, .start⟩) (now : ℤ) :
    step m valueToString w (.handle i now) =
      { w with tasks := setPhase w.tasks i (handleEvent m valueToString w.inflight now ev) } := by
  rw [step, h]
  rfl

theorem step_serve {s : Service H} (h : w.tasks[i]? = some ⟨ev, .serving s⟩) (a : ServiceAct) :
    step m valueToString w (.serve i a) =
      { w with
        tasks := setPhase w.tasks i (.serving (s.next a).1)
        inflight := s.inflightAfter i w.inflight a
        checked := w.checked ++ (s.next a).2.toList } := by
  rw [step, h]
  rfl

/-- A step of a handler that is not there. -/
theorem step_serve_of_ne (h : ∀ ev s, w.tasks[i]? ≠ some ⟨ev, .serving s⟩) (a : ServiceAct) :
    step m valueToString w (.serve i a) = w := by
  rw [step]
  cases ht : w.tasks[i]? with
  | none => rfl
  | some t =>
    obtain ⟨ev, phase⟩ := t
    cases phase with
    | serving s => exact absurd ht (h ev s)
    | _ => rfl

theorem step_mark {target : ℕ} {status : Json}
    (h : w.tasks[i]? = some ⟨ev, .marking target status⟩) :
    step m valueToString w (.mark i) =
      { w with tasks := (setPhase w.tasks i .done).modify target (markContext status) } := by
  rw [step, h]
  rfl

theorem step_mark_of_ne (h : w.tasks[i]? = some ⟨ev, phase⟩)
    (hphase : ∀ target status, phase ≠ .marking target status) :
    step m valueToString w (.mark i) = w := by
  rw [step, h]
  cases phase with
  | marking target status => exact absurd rfl (hphase target status)
  | _ => rfl

theorem step_resolve {id : ℕ} {result : Except RpcError Json}
    (h : w.tasks[i]? = some ⟨ev, .resolving id result⟩) :
    step m valueToString w (.resolve i) =
      (w.pending.get? id).elim { w with tasks := setPhase w.tasks i .done } fun c =>
        { w with
          tasks := setPhase w.tasks i .done
          pending := w.pending.swapRemove id
          calls := w.calls.modify c (send result) } := by
  rw [step, h]
  cases hwaits : w.pending.get? id with
  | none => simp only [stepTask, hwaits, Option.elim_none]
  | some c => simp only [stepTask, hwaits, Option.elim_some]

/-- A task that has nothing to tell a call. -/
theorem step_resolve_of_ne (h : w.tasks[i]? = some ⟨ev, phase⟩)
    (hphase : ∀ id result, phase ≠ .resolving id result) :
    step m valueToString w (.resolve i) = w := by
  rw [step, h]
  cases phase with
  | resolving id result => exact absurd rfl (hphase id result)
  | _ => rfl

/-- Only the steps of a handler and the making of a write touch what is served or written. -/
theorem step_frame (m : RpcManager H) (valueToString : Json → String) {a : RpcAct}
    (hserve : ∀ i b, a ≠ .serve i b) (hissue : ∀ n, a ≠ .issue n) :
    (step m valueToString w a).inflight = w.inflight ∧
      (step m valueToString w a).checked = w.checked ∧
      (step m valueToString w a).updates = w.updates := by
  cases a with
  | issue n => exact absurd rfl (hissue n)
  | serve i b => exact absurd rfl (hserve i b)
  | call c a => exact (stepCall_frame w c a).2
  | handle i now | mark i =>
    rw [step]
    cases w.tasks[i]? with
    | none => exact ⟨rfl, rfl, rfl⟩
    | some t =>
      obtain ⟨ev, phase⟩ := t
      cases phase <;> exact ⟨rfl, rfl, rfl⟩
  | resolve i =>
    cases ht : w.tasks[i]? with
    | none =>
      rw [step, ht]
      exact ⟨rfl, rfl, rfl⟩
    | some t =>
      obtain ⟨ev, phase⟩ := t
      cases phase with
      | resolving id result =>
        rw [step_resolve ht]
        cases w.pending.get? id <;> exact ⟨rfl, rfl, rfl⟩
      | _ =>
        rw [step, ht]
        exact ⟨rfl, rfl, rfl⟩

/-- How a step of the manager changes task `j`. -/
inductive TaskStep (m : RpcManager H) (valueToString : Json → String) (inflight : IndexMap ℕ ℕ)
    (j : ℕ) : RpcAct → RpcTask H → RpcTask H → Prop where
  | same (a : RpcAct) (t : RpcTask H) : TaskStep m valueToString inflight j a t t
  | handle (ev : Event) (now : ℤ) :
    TaskStep m valueToString inflight j (.handle j now) ⟨ev, .start⟩
      ⟨ev, handleEvent m valueToString inflight now ev⟩
  | serve (ev : Event) (s : Service H) (b : ServiceAct) :
    TaskStep m valueToString inflight j (.serve j b) ⟨ev, .serving s⟩ ⟨ev, .serving (s.next b).1⟩
  | mark (ev : Event) (target : ℕ) (status : Json) :
    TaskStep m valueToString inflight j (.mark j) ⟨ev, .marking target status⟩ ⟨ev, .done⟩
  | resolve (ev : Event) (id : ℕ) (result : Except RpcError Json) :
    TaskStep m valueToString inflight j (.resolve j) ⟨ev, .resolving id result⟩ ⟨ev, .done⟩
  /-- The update of another task cancels the context of this one. -/
  | cancelled (i : ℕ) (ev : Event) (s : Service H) (status : Json) :
    TaskStep m valueToString inflight j (.mark i) ⟨ev, .serving s⟩
      ⟨ev, .serving { s with ctx := s.ctx.markCancelled status }⟩

theorem TaskStep.rel_same {inflight : IndexMap ℕ ℕ} {a : RpcAct} {t t' : Option (RpcTask H)}
    (h : t' = t) : Option.Rel (TaskStep m valueToString inflight j a) t t' := by
  subst h
  cases t' with
  | none => exact .none
  | some t => exact .some (.same a t)

/-- A step sets the phase of one task. -/
theorem TaskStep.rel_setPhase {inflight : IndexMap ℕ ℕ} {a : RpcAct} {phase' : Phase H}
    (h : w.tasks[i]? = some ⟨ev, phase⟩)
    (hstep : i = j → TaskStep m valueToString inflight j a ⟨ev, phase⟩ ⟨ev, phase'⟩) :
    Option.Rel (TaskStep m valueToString inflight j a) w.tasks[j]?
      (setPhase w.tasks i phase')[j]? := by
  by_cases hij : j = i
  · subst hij
    rw [getElem?_setPhase_self h, h]
    exact .some (hstep rfl)
  · exact rel_same (getElem?_setPhase_of_ne hij phase')

theorem TaskStep.markContext {inflight : IndexMap ℕ ℕ} (status : Json) (t : RpcTask H) :
    TaskStep m valueToString inflight j (.mark i) t (RpcState.markContext status t) := by
  obtain ⟨ev, phase⟩ := t
  cases phase with
  | serving s => exact .cancelled i ev s status
  | _ => exact .same _ _

/-- **What a step does to one task**: what its own act does, or a cancellation. -/
theorem taskStep_step (m : RpcManager H) (valueToString : Json → String) (w : RpcState H)
    (a : RpcAct) (j : ℕ) :
    Option.Rel (TaskStep m valueToString w.inflight j a) w.tasks[j]?
      (step m valueToString w a).tasks[j]? := by
  cases a with
  | issue n =>
    rw [step]
    cases w.checked[n]? <;> exact TaskStep.rel_same rfl
  | call c a =>
    refine TaskStep.rel_same ?_
    show (w.stepCall c a).tasks[j]? = _
    rw [(stepCall_frame w c a).1]
  | handle i now =>
    rw [step]
    cases ht : w.tasks[i]? with
    | none => exact TaskStep.rel_same rfl
    | some t =>
      obtain ⟨ev, phase⟩ := t
      cases phase with
      | start =>
        refine TaskStep.rel_setPhase ht fun hij => ?_
        subst hij
        exact .handle ev now
      | _ => exact TaskStep.rel_same rfl
  | serve i b =>
    rw [step]
    cases ht : w.tasks[i]? with
    | none => exact TaskStep.rel_same rfl
    | some t =>
      obtain ⟨ev, phase⟩ := t
      cases phase with
      | serving s =>
        refine TaskStep.rel_setPhase ht fun hij => ?_
        subst hij
        exact .serve ev s b
      | _ => exact TaskStep.rel_same rfl
  | mark i =>
    rw [step]
    cases ht : w.tasks[i]? with
    | none => exact TaskStep.rel_same rfl
    | some t =>
      obtain ⟨ev, phase⟩ := t
      cases phase with
      | marking target status =>
        show Option.Rel _ _ ((setPhase w.tasks i .done).modify target (markContext status))[j]?
        rw [List.getElem?_modify]
        by_cases hij : j = i
        · -- a task that is done has no context to cancel
          subst hij
          rw [getElem?_setPhase_self ht, ht, Option.map_eq_map, Option.map_some]
          refine .some ?_
          split <;> exact .mark ev target status
        · rw [getElem?_setPhase_of_ne hij]
          cases w.tasks[j]? with
          | none => exact .none
          | some t =>
            rw [Option.map_eq_map, Option.map_some]
            refine .some ?_
            split
            · exact TaskStep.markContext status t
            · exact .same _ t
      | _ => exact TaskStep.rel_same rfl
  | resolve i =>
    cases ht : w.tasks[i]? with
    | none =>
      rw [step, ht]
      exact TaskStep.rel_same rfl
    | some t =>
      obtain ⟨ev, phase⟩ := t
      cases phase with
      | resolving id result =>
        have hdone : Option.Rel (TaskStep m valueToString w.inflight j (.resolve i)) w.tasks[j]?
            (setPhase w.tasks i .done)[j]? := by
          refine TaskStep.rel_setPhase ht fun hij => ?_
          subst hij
          exact .resolve ev id result
        rw [step_resolve ht]
        cases w.pending.get? id with
        | none => exact hdone
        | some c => exact hdone
      | _ =>
        rw [step, ht]
        exact TaskStep.rel_same rfl

/-- A task has made its step, or none. -/
theorem taskStep_of_getElem? (m : RpcManager H) (valueToString : Json → String) {t : RpcTask H}
    (h : w.tasks[j]? = some t) (a : RpcAct) :
    ∃ t', (step m valueToString w a).tasks[j]? = some t' ∧
      TaskStep m valueToString w.inflight j a t t' := by
  have hrel := taskStep_step m valueToString w a j
  rw [h] at hrel
  cases ht' : (step m valueToString w a).tasks[j]? with
  | none =>
    rw [ht'] at hrel
    cases hrel
  | some t' =>
    rw [ht', Option.rel_some_some] at hrel
    exact ⟨t', rfl, hrel⟩

/-- A task after a step was there before. -/
theorem taskStep_of_mem (m : RpcManager H) (valueToString : Json → String) {t' : RpcTask H}
    {a : RpcAct} (h : t' ∈ (step m valueToString w a).tasks) :
    ∃ j t, w.tasks[j]? = some t ∧ TaskStep m valueToString w.inflight j a t t' := by
  obtain ⟨j, hj⟩ := List.mem_iff_getElem?.mp h
  have hrel := taskStep_step m valueToString w a j
  rw [hj] at hrel
  cases ht : w.tasks[j]? with
  | none =>
    rw [ht] at hrel
    cases hrel
  | some t =>
    rw [ht, Option.rel_some_some] at hrel
    exact ⟨j, t, ht, hrel⟩

/-- A cancellation marks the context it found. -/
theorem getElem?_mark_target {u : ℕ} {ev' : Event} {status : Json} {s : Service H}
    (hu : w.tasks[u]? = some ⟨ev, .marking i status⟩)
    (hi : w.tasks[i]? = some ⟨ev', .serving s⟩) :
    (step m valueToString w (.mark u)).tasks[i]? =
      some ⟨ev', .serving { s with ctx := s.ctx.markCancelled status }⟩ := by
  have hne : i ≠ u := by
    rintro rfl
    cases hu.symm.trans hi
  rw [step_mark hu]
  show ((setPhase w.tasks u .done).modify i (markContext status))[i]? = _
  rw [List.getElem?_modify, getElem?_setPhase_of_ne hne, hi]
  simp [markContext]

/-- A task that serves a request goes on serving it, and stays cancelled. -/
theorem serving_step (m : RpcManager H) (valueToString : Json → String)
    {s : Service H} (hi : w.tasks[j]? = some ⟨ev, .serving s⟩)
    (a : RpcAct) : ∃ s', (step m valueToString w a).tasks[j]? = some ⟨ev, .serving s'⟩ ∧
      (s.ctx.isCancelled = true → s'.ctx.isCancelled = true) := by
  obtain ⟨t', ht', hstep⟩ := taskStep_of_getElem? m valueToString hi a
  cases hstep with
  | same => exact ⟨s, ht', fun h => h⟩
  | serve _ _ b => exact ⟨_, ht', fun h => (s.next_isCancelled b).trans h⟩
  | cancelled _ _ _ status => exact ⟨_, ht', fun _ => s.ctx.isCancelled_markCancelled status⟩

/-- A cancellation that has found its context waits until it marks it. -/
theorem marking_step {status : Json} {target : ℕ} {a : RpcAct}
    (hu : w.tasks[j]? = some ⟨ev, .marking target status⟩) (ha : a ≠ .mark j) :
    (step m valueToString w a).tasks[j]? = some ⟨ev, .marking target status⟩ := by
  obtain ⟨t', ht', hstep⟩ := taskStep_of_getElem? m valueToString hu a
  cases hstep with
  | same => exact ht'
  | mark => exact absurd rfl ha

end TaskSteps

end RpcState
end Doover
