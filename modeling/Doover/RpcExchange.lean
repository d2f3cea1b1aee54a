import Doover.CommandExpiry
import Doover.RpcInflight

/-! # A request and its answer

A call writes its request into a message, which is served on the parameters of the call
(`acceptRequest_createEvent`), and whoever serves it answers in updates of the message.

What the manager writes are the updates its tasks have decided on.  A caller that reads such an
update learns nothing from a report, and from an answer exactly what the handler has returned.
So a task tells the caller the one result with which its handler returned, or nothing: not
before, not twice, and not once the command was withdrawn; and a task that has finished has told
it, unless the command was withdrawn or has no message (`exchange`).  That a write fails changes
nothing of this: a failed report is the handler's to deal with, and a failed answer is only
logged.
-/

namespace Doover
namespace RpcExchange
open Json RpcState StepRuns
variable {H : Type}

/-! ## The message -/

/-- The agent announces a message. -/
def createEvent (channel : String) (id : UInt64) (data : Json) : Event :=
  ⟨Event.MESSAGE_CREATE, channel, .ofList [("id", .ofU64 id), ("data", data)]⟩

/-! ## The request -/

/-- The id of the message that an event announces. -/
theorem messageId_event (name channel : String) (id : UInt64) (data : Json) :
    (Event.mk name channel (.ofList [("id", .ofU64 id), ("data", data)])).messageId =
      some id.toNat := by
  show asU64 (.ofU64 id) = some id.toNat
  simp [asU64, ofU64, ofInt, Number.asU64]

/-- The keys that a request always has. -/
theorem get?_requestPayload_of_base (opts : CallOptions) (method : String) (params : Option Json)
    {k : String} (hk : k ∉ ["app_key", "actor", "reason", "old_value", "expires_after", "retry_of"]) :
    (opts.requestPayload method params).get? k =
      (Json.ofList [("type", .string "rpc"), ("method", .string method),
        ("request", params.getD (.object .empty)), ("status", Json.ofList [("code", .string "sent")]),
        ("response", .object .empty)]).get? k := by
  simp only [List.mem_cons, List.not_mem_nil, or_false, not_or] at hk
  obtain ⟨h₁, h₂, h₃, h₄, h₅, h₆⟩ := hk
  rw [CallOptions.requestPayload, get?_object, get?_insertSome_of_ne h₆, get?_insertSome_of_ne h₅,
    get?_insertSome_of_ne h₄, get?_insertSome_of_ne h₃, get?_insertSome_of_ne h₂,
    get?_insertSome_of_ne h₁]
  rfl

theorem get?_insertSome_self {m : IndexMap String Json} {k : String} (h : m.get? k = none)
    (v : Option Json) : (insertSome m k v).get? k = v := by
  cases v with
  | none => exact h
  | some v => exact IndexMap.get?_insert_self ..

theorem get?_requestPayload_appKey (opts : CallOptions) (method : String) (params : Option Json) :
    (opts.requestPayload method params).get? "app_key" = opts.appKey.map .string := by
  rw [CallOptions.requestPayload, get?_object, get?_insertSome_of_ne (by decide),
    get?_insertSome_of_ne (by decide), get?_insertSome_of_ne (by decide),
    get?_insertSome_of_ne (by decide), get?_insertSome_of_ne (by decide)]
  exact get?_insertSome_self rfl _

/-- **A request is served on the call's parameters**, by an app that it is for and that has a
handler, unless it has expired. -/
theorem acceptRequest_createEvent (m : RpcManager H) (now : ℤ) (channel : String) (id : UInt64)
    (opts : CallOptions) (method : String) (params : Option Json) :
    m.acceptRequest now (createEvent channel id (opts.requestPayload method params)) =
      if (∀ target, opts.appKey = some target → m.appKey = some target) ∧
          commandIsExpired id.toNat (opts.requestPayload method params) now = false then
        (m.getHandler channel method).map fun handler =>
          { method, channel, payload := params.getD (.object .empty), handler
            messageId := some id.toNat, requestMessageId := some id.toNat
            data := opts.requestPayload method params }
      else none := by
  have hdata : (createEvent channel id (opts.requestPayload method params)).messageData =
      some (opts.requestPayload method params) := rfl
  have htype : (opts.requestPayload method params).get? "type" = some (.string "rpc") :=
    get?_requestPayload_of_base opts method params (by decide)
  have hmethod : (opts.requestPayload method params).get? "method" = some (.string method) :=
    get?_requestPayload_of_base opts method params (by decide)
  have hrequest : (opts.requestPayload method params).get? "request" =
      some (params.getD (.object .empty)) :=
    get?_requestPayload_of_base opts method params (by decide)
  have hstatus : (opts.requestPayload method params).get? "status" =
      some (Json.ofList [("code", .string "sent")]) :=
    get?_requestPayload_of_base opts method params (by decide)
  have hcancelled : commandIsCancelled (opts.requestPayload method params) = false := by
    rw [commandIsCancelled, hstatus]
    rfl
  have htarget : (((opts.appKey.map Json.string).bind asStr).all fun target => m.appKey = some target) =
      true ↔ ∀ target, opts.appKey = some target → m.appKey = some target := by
    cases opts.appKey <;> simp [asStr]
  have hoption : ∀ {α : Type} (p : Prop) [Decidable p] (x : Option α),
      ((guard p : Option Unit).bind fun _ => x) = if p then x else none := by
    intro α p _ x
    by_cases hp : p <;> simp [guard, hp]
  simp only [RpcManager.acceptRequest, Option.bind_eq_bind, hdata, Option.bind_some, htype, hmethod,
    hrequest, hcancelled, get?_requestPayload_appKey, asStr, hoption, htarget]
  have hid : (createEvent channel id (opts.requestPayload method params)).messageId = some id.toNat :=
    messageId_event ..
  have honeShot : (createEvent channel id (opts.requestPayload method params)).isOneShot = false := rfl
  have hchannel : (createEvent channel id (opts.requestPayload method params)).channel = channel := rfl
  rw [hid, honeShot, hchannel, Option.any_some]
  by_cases hmine : ∀ target, opts.appKey = some target → m.appKey = some target
  · cases commandIsExpired id.toNat (opts.requestPayload method params) now with
    | true => simp
    | false =>
      cases m.getHandler channel method with
      | none => simp
      | some handler => simp
  · rw [if_pos trivial, if_neg hmine, if_neg fun h => hmine h.1]

/-! ## What a task does -/

/-- What comes of serving a request: its handler returns, or it decides on a write. -/
inductive TaskEvent where
  | returned (result : Except RpcError Json)
  | wrote (u : MessageUpdate)

def handlerReturns (s : Service H) : ServiceAct → List TaskEvent
  | .returns result =>
    match s.stage with
    | .running => [.returned result]
    | _ => []
  | _ => []

def serviceEvents (s : Service H) (b : ServiceAct) : List TaskEvent :=
  handlerReturns s b ++ (s.next b).2.toList.map .wrote

/-- What a step of the manager does, with the number of the task that does it. -/
def taskEvents (w : RpcState H) : RpcAct → List (ℕ × TaskEvent)
  | .serve i b =>
    match w.tasks[i]? with
    | some ⟨_, .serving s⟩ => (serviceEvents s b).map (i, ·)
    | _ => []
  | _ => []

/-- What one task has done. -/
def eventsOf (j : ℕ) (es : List (ℕ × TaskEvent)) : List TaskEvent :=
  es.filterMap fun e => if e.1 = j then some e.2 else none

def written (es : List (ℕ × TaskEvent)) : List MessageUpdate :=
  es.filterMap fun e => match e.2 with
    | .wrote u => some u
    | .returned _ => none

/-- With what the handler has returned. -/
def returned (es : List TaskEvent) : List (Except RpcError Json) :=
  es.filterMap fun
    | .returned result => some result
    | .wrote _ => none

/-- What a call is told by a message. -/
def outcomeOf (valueToString : Json → String) (data : Json) : Option (Except RpcError Json) :=
  (data.get? "status").bind (responseOutcome valueToString data)

/-- What a caller is told by the updates, in order. -/
def told (valueToString : Json → String) (es : List TaskEvent) : List (Except RpcError Json) :=
  es.filterMap fun
    | .wrote u => outcomeOf valueToString u.data
    | .returned _ => none

section Lists
variable {valueToString : Json → String} {j : ℕ} {es es' : List TaskEvent}
  {ts ts' : List (ℕ × TaskEvent)}

@[simp] theorem eventsOf_append : eventsOf j (ts ++ ts') = eventsOf j ts ++ eventsOf j ts' :=
  List.filterMap_append

@[simp] theorem written_append : written (ts ++ ts') = written ts ++ written ts' :=
  List.filterMap_append

@[simp] theorem returned_append : returned (es ++ es') = returned es ++ returned es' :=
  List.filterMap_append

@[simp] theorem told_append :
    told valueToString (es ++ es') = told valueToString es ++ told valueToString es' :=
  List.filterMap_append

theorem eventsOf_self : eventsOf j (es.map (j, ·)) = es := by
  simp [eventsOf, List.filterMap_map]

theorem eventsOf_of_ne {i : ℕ} (h : i ≠ j) : eventsOf j (es.map (i, ·)) = [] := by
  simp [eventsOf, List.filterMap_map, h]

end Lists

/-! ## What a caller reads -/

section Read
variable (valueToString : Json → String)

/-- A report tells nothing, whatever its fields say. -/
theorem outcomeOf_report {r : Report} {data : Json} (h : r.data = some data) :
    outcomeOf valueToString data = none := by
  have hpending : ∀ (code : String) (message : Json),
      code ∈ ["sent", "acknowledged", "deferred", "pending"] →
        outcomeOf valueToString (Json.ofList [("status", statusPayload code message)]) = none := by
    intro code message hcode
    show responseOutcome valueToString _ (statusPayload code message) = none
    rw [responseOutcome, show (statusPayload code message).get? "code" = some (.string code) from rfl]
    exact if_pos hcode
  cases r with
  | acknowledge now =>
    cases h
    exact hpending _ _ (by decide)
  | defer now waitMs =>
    cases h
    exact hpending _ _ (by decide)
  | progress text fields =>
    cases fields with
    | object m =>
      cases h
      exact hpending _ _ (by decide)
    | null =>
      cases h
      exact hpending _ _ (by decide)
    | _ => cases h

theorem told_report (ctx : RpcContext H) (r : Report) {u : Option MessageUpdate}
    (h : ∀ v, u = some v → ctx.report r = some v) :
    told valueToString (u.toList.map .wrote) = [] := by
  cases u with
  | none => rfl
  | some v =>
    have hreport := h v rfl
    rw [RpcContext.report] at hreport
    simp only [Option.bind_eq_bind, Option.bind_eq_some_iff] at hreport
    obtain ⟨id, -, -, -, data, hdata, heq⟩ := hreport
    cases heq
    have hnone := outcomeOf_report valueToString hdata
    simp [told, hnone]

end Read

/-! ## One task -/

/-- Where a request stands: nothing is told before its handler has returned, and then at most
with what it has returned. -/
def Answered (s : Service H) (returned told : List (Except RpcError Json)) : Prop :=
  match s.stage with
  | .accepted | .running => returned = [] ∧ told = []
  | .returned result | .untracked result => returned = [result] ∧ told = []
  | .failed e shouldRespond => returned = [.error e] ∧ told = [] ∧
      (s.ctx.isCancelled = false → shouldRespond = s.ctx.request.messageId)
  | .finished => (told = [] ∨ ∃ result, told = [result] ∧ returned = [result]) ∧
      (s.ctx.isCancelled = false → s.ctx.request.messageId ≠ none → told = returned)

section Task
variable {valueToString : Json → String} {s : Service H}
  {returned told : List (Except RpcError Json)}

theorem answered_markCancelled (h : Answered s returned told) (status : Json) :
    Answered { s with ctx := s.ctx.markCancelled status } returned told := by
  have hcancelled := s.ctx.isCancelled_markCancelled status
  obtain ⟨ctx, stage⟩ := s
  cases stage with
  | failed e shouldRespond =>
    refine ⟨h.1, h.2.1, fun hlive => ?_⟩
    cases hcancelled.symm.trans hlive
  | finished =>
    refine ⟨h.1, fun hlive => ?_⟩
    cases hcancelled.symm.trans hlive
  | _ => exact h

theorem shouldRespond_eq (ctx : RpcContext H) :
    (ctx.request.messageId.filter fun _ => !ctx.isCancelled) =
      if ctx.isCancelled then none else ctx.request.messageId := by
  cases ctx.isCancelled <;> cases ctx.request.messageId <;> rfl

/-- What has been answered, by a step of the request's own. -/
theorem answered_next (h : Answered s returned told) (b : ServiceAct) :
    Answered (s.next b).1 (returned ++ RpcExchange.returned (serviceEvents s b))
      (told ++ RpcExchange.told valueToString (serviceEvents s b)) := by
  have hquiet : ∀ {s' : Service H}, Answered s' returned told →
      Answered s' (returned ++ []) (told ++ []) := by
    intro s' hs'
    rwa [List.append_nil, List.append_nil]
  obtain ⟨ctx, stage⟩ := s
  cases b with
  | track | untrack | drop => cases stage <;> exact hquiet h
  | panics =>
    cases stage with
    | running => exact hquiet ⟨.inl h.2, fun _ _ => h.2.trans h.1.symm⟩
    | _ => exact hquiet h
  | returns result =>
    cases stage with
    | running =>
      obtain ⟨rfl, rfl⟩ := h
      exact ⟨rfl, rfl⟩
    | _ => exact hquiet h
  | report r =>
    have hevents : serviceEvents ⟨ctx, stage⟩ (.report r) =
        (Service.next ⟨ctx, stage⟩ (.report r)).2.toList.map .wrote := by
      cases stage <;> rfl
    have htold : RpcExchange.told valueToString (serviceEvents ⟨ctx, stage⟩ (.report r)) = [] := by
      rw [hevents]
      refine told_report valueToString ctx r fun v hv => ?_
      cases stage with
      | accepted => cases hv
      | _ =>
        have hheld : (if ctx.held then ctx.report r else none) = some v := hv
        split at hheld
        · exact hheld
        · cases hheld
    have hreturned : RpcExchange.returned (serviceEvents ⟨ctx, stage⟩ (.report r)) = [] := by
      rw [hevents]
      cases (Service.next ⟨ctx, stage⟩ (.report r)).2 <;> rfl
    have hsame : (Service.next ⟨ctx, stage⟩ (.report r)).1 = ⟨ctx, stage⟩ := by
      cases stage <;> rfl
    rw [htold, hreturned, hsame]
    exact hquiet h
  | checkResponse =>
    cases stage with
    | untracked result =>
      obtain ⟨rfl, rfl⟩ := h
      cases result with
      | error e =>
        refine hquiet ⟨rfl, rfl, fun hlive => ?_⟩
        have hlive : ctx.isCancelled = false := hlive
        show (ctx.request.messageId.filter fun _ => !ctx.isCancelled) = ctx.request.messageId
        rw [shouldRespond_eq, hlive]
        rfl
      | ok response =>
        have hevents : serviceEvents ⟨ctx, .untracked (.ok response)⟩ .checkResponse =
            ((if ctx.isCancelled then none else ctx.request.messageId).map fun id =>
              sendResult ctx.request.channel id response).toList.map .wrote := by
          rw [← shouldRespond_eq]
          rfl
        rw [hevents]
        cases hcancelled : ctx.isCancelled with
        | true => exact hquiet ⟨.inl rfl, fun hlive => by cases hcancelled.symm.trans hlive⟩
        | false =>
          cases hid : ctx.request.messageId with
          | none => exact hquiet ⟨.inl rfl, fun _ hmessage => absurd hid hmessage⟩
          | some id => exact ⟨.inr ⟨.ok response, rfl, rfl⟩, fun _ _ => rfl⟩
    | _ => exact hquiet h
  | checkFailure =>
    cases stage with
    | failed e shouldRespond =>
      obtain ⟨rfl, rfl, hrespond⟩ := h
      have hevents : serviceEvents ⟨ctx, .failed e shouldRespond⟩ .checkFailure =
          (if ctx.isCancelled then none
            else shouldRespond.map fun id => sendError ctx.request.channel id e).toList.map .wrote :=
        rfl
      rw [hevents]
      cases hcancelled : ctx.isCancelled with
      | true => exact hquiet ⟨.inl rfl, fun hlive => by cases hcancelled.symm.trans hlive⟩
      | false =>
        have hrespond : shouldRespond = ctx.request.messageId := hrespond hcancelled
        rw [hrespond]
        cases hid : ctx.request.messageId with
        | none => exact hquiet ⟨.inl rfl, fun _ hmessage => absurd hid hmessage⟩
        | some id => exact ⟨.inr ⟨.error e, rfl, rfl⟩, fun _ _ => rfl⟩
    | _ => exact hquiet h

/-- Nothing is answered once the command is withdrawn. -/
theorem told_of_cancelled (h : s.ctx.isCancelled = true) (b : ServiceAct) :
    RpcExchange.told valueToString (serviceEvents s b) = [] := by
  obtain ⟨ctx, stage⟩ := s
  have hcancelled : ctx.isCancelled = true := h
  cases b with
  | track | untrack | drop | panics => cases stage <;> rfl
  | returns result => cases stage <;> rfl
  | report r =>
    have hnone : ctx.report r = none := by
      rw [RpcContext.report, RpcContext.mayWrite, hcancelled]
      cases ctx.request.messageId <;> rfl
    cases stage with
    | accepted => rfl
    | _ =>
      refine told_report valueToString ctx r fun v hv => ?_
      have hheld : (if ctx.held then ctx.report r else none) = some v := hv
      rw [hnone, ite_self] at hheld
      cases hheld
  | checkResponse =>
    cases stage with
    | untracked result =>
      cases result with
      | error e => rfl
      | ok response =>
        show RpcExchange.told valueToString (((ctx.request.messageId.filter fun _ =>
          !ctx.isCancelled).map _).toList.map .wrote) = []
        rw [shouldRespond_eq, if_pos hcancelled]
        rfl
    | _ => rfl
  | checkFailure =>
    cases stage with
    | failed e shouldRespond =>
      show RpcExchange.told valueToString
        ((if ctx.isCancelled then none else _).toList.map .wrote) = []
      rw [if_pos hcancelled]
      rfl
    | _ => rfl

end Task

/-! ## Runs -/

section Run
variable (m : RpcManager H) (valueToString : Json → String)

/-- What is so of every task, and of the writes of all of them. -/
structure Exchanged (w : RpcState H) (ts : List (ℕ × TaskEvent)) : Prop where
  written : (w.updates ++ w.checked).Perm (written ts)
  serving : ∀ j ev s, w.tasks[j]? = some ⟨ev, .serving s⟩ →
    Answered s (returned (eventsOf j ts)) (told valueToString (eventsOf j ts))
  idle : ∀ j, (∀ ev s, w.tasks[j]? ≠ some ⟨ev, .serving s⟩) → eventsOf j ts = []

variable {m valueToString} {w : RpcState H} {ts : List (ℕ × TaskEvent)}

/-- A write goes from one list to the other when it is made, and a task's decision adds one. -/
theorem written_step (h : (w.updates ++ w.checked).Perm (written ts)) (a : RpcAct) :
    ((step m valueToString w a).updates ++ (step m valueToString w a).checked).Perm
      (written (ts ++ taskEvents w a)) := by
  have hsame : (∀ i b, a ≠ .serve i b) → (∀ n, a ≠ .issue n) →
      ((step m valueToString w a).updates ++ (step m valueToString w a).checked).Perm
        (written (ts ++ taskEvents w a)) := by
    intro hserve hissue
    obtain ⟨-, hchecked, hupdates⟩ := step_frame (w := w) m valueToString hserve hissue
    have hnone : taskEvents w a = [] := by
      cases a with
      | serve i b => exact absurd rfl (hserve i b)
      | _ => rfl
    rw [hchecked, hupdates, hnone, List.append_nil]
    exact h
  cases a with
  | issue n =>
    have hnone : taskEvents w (.issue n) = [] := rfl
    rw [hnone, List.append_nil, step]
    cases hu : w.checked[n]? with
    | none => exact h
    | some u =>
      obtain ⟨hn, rfl⟩ := List.getElem?_eq_some_iff.mp hu
      refine List.Perm.trans ?_ h
      rw [List.append_assoc, List.singleton_append]
      exact (List.getElem_cons_eraseIdx_perm hn).append_left w.updates
  | serve i b =>
    by_cases hserving : ∃ ev s, w.tasks[i]? = some ⟨ev, .serving s⟩
    · obtain ⟨ev, s, ht⟩ := hserving
      have hwritten : written (taskEvents w (.serve i b)) = (s.next b).2.toList := by
        rw [taskEvents, ht]
        show written ((serviceEvents s b).map (i, ·)) = _
        have hreturns : written ((handlerReturns s b).map (i, ·)) = [] := by
          unfold handlerReturns
          split
          · split <;> rfl
          · rfl
        rw [serviceEvents, List.map_append, written_append, hreturns]
        cases (s.next b).2 <;> rfl
      rw [step_serve ht, written_append, hwritten, ← List.append_assoc]
      exact h.append_right _
    · have hnone : taskEvents w (.serve i b) = [] := by
        rw [taskEvents]
        split
        · rename_i ev s ht
          exact absurd ⟨ev, s, ht⟩ hserving
        · rfl
      rw [step_serve_of_ne fun ev s ht => hserving ⟨ev, s, ht⟩, hnone, List.append_nil]
      exact h
  | call | handle | mark | resolve =>
    exact hsame (fun i b hab => by cases hab) fun n hab => by cases hab

/-- What a step adds to the events of a task. -/
theorem eventsOf_taskEvents {a : RpcAct} {j : ℕ} {ev : Event} {s : Service H}
    (h : w.tasks[j]? = some ⟨ev, .serving s⟩) :
    eventsOf j (taskEvents w a) =
      match a with
      | .serve i b => if i = j then serviceEvents s b else []
      | _ => [] := by
  cases a with
  | serve i b =>
    show eventsOf j (taskEvents w (.serve i b)) = if i = j then serviceEvents s b else []
    by_cases hij : i = j
    · subst hij
      rw [if_pos rfl, taskEvents, h]
      exact eventsOf_self
    · rw [if_neg hij, taskEvents]
      split
      · exact eventsOf_of_ne hij
      · rfl
  | _ => rfl

theorem eventsOf_taskEvents_of_idle {a : RpcAct} {j : ℕ}
    (h : ∀ ev s, w.tasks[j]? ≠ some ⟨ev, .serving s⟩) : eventsOf j (taskEvents w a) = [] := by
  cases a with
  | serve i b =>
    rw [taskEvents]
    split
    · rename_i ev s ht
      refine eventsOf_of_ne ?_
      rintro rfl
      exact h ev s ht
    · rfl
  | _ => rfl

/-- **One step.** -/
theorem exchanged_step (h : Exchanged valueToString w ts) (a : RpcAct) :
    Exchanged valueToString (step m valueToString w a) (ts ++ taskEvents w a) := by
  refine ⟨written_step h.written a, fun j ev' s' hj => ?_, fun j hidle => ?_⟩
  · obtain ⟨t, ht, hstep⟩ : ∃ t, w.tasks[j]? = some t ∧
        TaskStep m valueToString w.inflight j a t ⟨ev', .serving s'⟩ := by
      have hrel := taskStep_step m valueToString w a j
      rw [hj] at hrel
      cases ht : w.tasks[j]? with
      | none =>
        rw [ht] at hrel
        cases hrel
      | some t =>
        rw [ht, Option.rel_some_some] at hrel
        exact ⟨t, rfl, hrel⟩
    rw [eventsOf_append, returned_append, told_append]
    by_cases hserving : ∃ s, t = ⟨t.event, .serving s⟩
    · obtain ⟨s, hs⟩ := hserving
      rw [hs] at ht hstep
      have hanswered := h.serving j _ s ht
      rw [eventsOf_taskEvents ht]
      by_cases hown : ∃ b, a = .serve j b
      · obtain ⟨b, rfl⟩ := hown
        have hnext : s' = (s.next b).1 := by
          rw [step_serve ht] at hj
          have hself := (getElem?_setPhase_self ht (.serving (s.next b).1)).symm.trans hj
          cases hself
          rfl
        rw [hnext]
        simp only [if_true]
        exact answered_next hanswered b
      · have hnone : (match a with
            | .serve i b => if i = j then serviceEvents s b else []
            | _ => []) = [] := by
          cases a with
          | serve i b =>
            refine if_neg ?_
            rintro rfl
            exact hown ⟨b, rfl⟩
          | _ => rfl
        rw [hnone]
        show Answered s' (_ ++ []) (_ ++ [])
        rw [List.append_nil, List.append_nil]
        cases hstep with
        | same => exact hanswered
        | serve _ _ b => exact absurd ⟨b, rfl⟩ hown
        | cancelled _ _ _ status => exact answered_markCancelled hanswered status
    · -- a request that has just passed the filter
      have hidle : ∀ ev s, w.tasks[j]? ≠ some ⟨ev, .serving s⟩ := by
        intro ev s hs
        cases ht.symm.trans hs
        exact hserving ⟨s, rfl⟩
      rw [h.idle j hidle, eventsOf_taskEvents_of_idle hidle]
      generalize hphase : Phase.serving s' = phase at hstep
      cases hstep with
      | same => exact absurd ⟨s', by rw [hphase]⟩ hserving
      | handle _ now =>
        rw [handleEvent] at hphase
        split at hphase
        · split at hphase
          · cases hphase
            exact ⟨rfl, rfl⟩
          · cases hphase
        · split at hphase
          · rw [handleResponse] at hphase
            split at hphase
            · cases hphase
            · split at hphase
              · cases hphase
              · split at hphase <;> cases hphase
          · cases hphase
      | serve _ s _ => exact absurd ⟨s, rfl⟩ hserving
      | mark | resolve => cases hphase
      | cancelled _ _ s _ => exact absurd ⟨s, rfl⟩ hserving
  · have hbefore : ∀ ev s, w.tasks[j]? ≠ some ⟨ev, .serving s⟩ := by
      intro ev s hs
      obtain ⟨s', hs', -⟩ := serving_step m valueToString hs a
      exact hidle ev s' hs'
    rw [eventsOf_append, h.idle j hbefore, eventsOf_taskEvents_of_idle hbefore]
    rfl

theorem exchanged_run (m : RpcManager H) (valueToString : Json → String) (events : List Event)
    (calls : ℕ) (as : List RpcAct) :
    Exchanged valueToString (exec (step m valueToString) (init H events calls) as)
      (outputs (step m valueToString) taskEvents (init H events calls) as) := by
  refine outputs_invariant (step m valueToString) taskEvents (I := Exchanged valueToString) as ?_
    fun w ts h a _ => exchanged_step h a
  refine ⟨List.Perm.refl _, fun j ev s hj => ?_, fun j _ => rfl⟩
  rw [init, List.getElem?_map] at hj
  obtain ⟨ev', -, heq⟩ := Option.map_eq_some_iff.mp hj
  cases heq

/-- A task whose command is withdrawn tells nothing more. -/
theorem told_after_cancelled {j : ℕ} (h : RpcInflight.CancelledAt w j) (as : List RpcAct) :
    told valueToString (eventsOf j (outputs (step m valueToString) taskEvents w as)) = [] := by
  induction as generalizing w with
  | nil => rfl
  | cons a as ih =>
    rw [outputs, eventsOf_append, told_append, ih (RpcInflight.cancelledAt_step h a),
      List.append_nil]
    obtain ⟨ev, s, hs, hcancelled⟩ := h
    rw [eventsOf_taskEvents hs]
    cases a with
    | serve i b =>
      show told valueToString (if i = j then serviceEvents s b else []) = []
      split
      · exact told_of_cancelled hcancelled b
      · rfl
    | _ => rfl

/-- **A request is answered once, with what its handler returned.**  In every run of a manager,
what it has written and is about to write are the writes its tasks have decided on.  What a task
tells a caller by them is nothing, or the one result with which the handler has returned; it is
that result once the task has finished, unless its command was withdrawn or has no message; and
whatever was told when a command is withdrawn is all that is ever told. -/
theorem exchange (m : RpcManager H) (valueToString : Json → String) (events : List Event)
    (calls : ℕ) (as : List RpcAct) :
    let w := exec (step m valueToString) (init H events calls) as
    let ts := outputs (step m valueToString) taskEvents (init H events calls) as
    (w.updates ++ w.checked).Perm (written ts) ∧ ∀ j,
      (told valueToString (eventsOf j ts) = [] ∨ ∃ result,
        told valueToString (eventsOf j ts) = [result] ∧ returned (eventsOf j ts) = [result]) ∧
      (∀ ev s, w.tasks[j]? = some ⟨ev, .serving s⟩ → s.stage = .finished →
        s.ctx.isCancelled = false → s.ctx.request.messageId ≠ none →
          told valueToString (eventsOf j ts) = returned (eventsOf j ts)) ∧
      ∀ before after, as = before ++ after →
        RpcInflight.CancelledAt (exec (step m valueToString) (init H events calls) before) j →
          told valueToString (eventsOf j ts) = told valueToString (eventsOf j
            (outputs (step m valueToString) taskEvents (init H events calls) before)) := by
  intro w ts
  have h : Exchanged valueToString w ts := exchanged_run m valueToString events calls as
  refine ⟨h.written, fun j => ⟨?_, fun ev s hj hfinished hlive hid => ?_, ?_⟩⟩
  · by_cases hserving : ∃ ev s, w.tasks[j]? = some ⟨ev, .serving s⟩
    · obtain ⟨ev, ⟨ctx, stage⟩, hj⟩ := hserving
      have hanswered := h.serving j ev _ hj
      cases stage with
      | accepted | running | returned | untracked => exact .inl hanswered.2
      | failed => exact .inl hanswered.2.1
      | finished => exact hanswered.1
    · rw [h.idle j fun ev s hj => hserving ⟨ev, s, hj⟩]
      exact .inl rfl
  · have hanswered := h.serving j ev s hj
    rw [Answered, hfinished] at hanswered
    exact hanswered.2 hlive hid
  · rintro before after rfl hcancelled
    have hts : ts = outputs (step m valueToString) taskEvents (init H events calls) before ++
        outputs (step m valueToString) taskEvents
          (exec (step m valueToString) (init H events calls) before) after := outputs_append ..
    rw [hts, eventsOf_append, told_append, told_after_cancelled hcancelled after, List.append_nil]

end Run

end RpcExchange
end Doover
