import Doover.RpcTasks

/-! # What a status update resolves

A status update of a message is for the call that waits for it, or it withdraws a command
that is being served.  `handle_response` looks for the command first, since the two id
spaces are said to be disjoint, and a withdrawal that finds one goes no further.

An app that calls a method it serves itself has one id in both maps.  A terminal update
resolves the waiting call, whatever else is going on, except for the withdrawal of such a
call (`handled_resolves_iff`).
-/

namespace Doover
open Json RpcState StepRuns
variable {H : Type} (m : RpcManager H) (valueToString : Json → String)

/-- The error that a failed command's status tells. -/
def decodedError (status : Json) : RpcError :=
  let valueToMessage := fun v : Json => v.asStr.getD (valueToString v)
  match status.get? "message" with
  | some (.object m) =>
    ⟨((m.get? "code").bind asStr).getD "UNKNOWN", ((m.get? "message").map valueToMessage).getD ""⟩
  | some other => ⟨"UNKNOWN", valueToMessage other⟩
  | none => ⟨"UNKNOWN", ""⟩

/-- What a call is told by a status: nothing, unless it is a success or an error. -/
def terminalOutcome (data status : Json) : Option (Except RpcError Json) :=
  if (status.get? "code").bind asStr = some "success" then
    some (.ok ((data.get? "response").getD (.object .empty)))
  else if (status.get? "code").bind asStr = some "error" then
    some (.error
      (if statusIsCancelled status then
        .cancelled (((data.get? "method").bind asStr).getD "unknown")
      else decodedError valueToString status))
  else none

/-- `handle_response` on the update of task `i`, with no other task in between. -/
def handled (w : RpcState H) (i : ℕ) (now : ℤ) : RpcState H :=
  exec (step m valueToString) w [.handle i now, .mark i, .resolve i]

/-- The call that waits for message `id` is resolved with the outcome and waits no longer, if
there is an outcome; nothing happens to any other call. -/
structure Resolves (w w' : RpcState H) (id : ℕ) (outcome : Option (Except RpcError Json)) :
    Prop where
  resolved : ∀ result c, outcome = some result → w.pending.get? id = some c →
    w'.pending.get? id = none ∧ w'.calls = w.calls.modify c (send result)
  kept : outcome = none ∨ w.pending.get? id = none →
    w'.pending = w.pending ∧ w'.calls = w.calls
  others : ∀ j, j ≠ id →
    w'.pending.get? j = w.pending.get? j ∧ w'.inflight.get? j = w.inflight.get? j

variable {valueToString}

/-- The outcome the code finds is the one of a terminal status. -/
theorem responseOutcome_eq (data status : Json) :
    responseOutcome valueToString data status = terminalOutcome valueToString data status := by
  rw [responseOutcome, terminalOutcome]
  cases hcode : (status.get? "code").bind asStr with
  | none =>
    have hno : statusIsCancelled status = false := by
      by_contra h
      cases hcode.symm.trans (code_of_statusIsCancelled ((Bool.not_eq_false _).mp h))
    simp [hno]
  | some code =>
    by_cases herror : code = "error"
    · subst herror
      have hintermediate : ¬ "error" ∈ ["sent", "acknowledged", "deferred", "pending"] := by
        decide
      have hsuccess : ¬ "error" = "success" := by decide
      have hsuccess' : ¬ some "error" = some "success" := by decide
      cases hcancelled : statusIsCancelled status with
      | true =>
        rw [Option.getD_some, if_neg hintermediate, if_pos rfl, if_neg hsuccess', if_pos rfl,
          if_pos rfl]
      | false =>
        rw [Option.getD_some, if_neg hintermediate, if_neg Bool.false_ne_true, if_neg hsuccess,
          if_pos rfl, if_neg hsuccess', if_pos rfl, if_neg Bool.false_ne_true]
        unfold decodedError
        cases status.get? "message" with
        | none => rfl
        | some message => cases message <;> rfl
    · have hno : statusIsCancelled status = false := by
        by_contra h
        have hcode' := code_of_statusIsCancelled ((Bool.not_eq_false _).mp h)
        exact herror (Option.some.inj (hcode.symm.trans hcode'))
      simp only [Option.getD_some, hno]
      by_cases hsuccess : code = "success"
      · subst hsuccess
        rw [if_neg (by decide), if_neg (by decide), if_pos rfl, if_pos rfl]
      · simp [herror, hsuccess]

variable {m} {w : RpcState H} {i : ℕ} {ev : Event}

/-- The first step of an update's task. -/
theorem handled_eq (hup : ev.isMessageUpdate = true) (htask : w.tasks[i]? = some ⟨ev, .start⟩)
    (now : ℤ) :
    handled m valueToString w i now =
      exec (step m valueToString)
        { w with tasks := setPhase w.tasks i (handleResponse valueToString w.inflight ev) }
        [.mark i, .resolve i] := by
  rw [handled, exec_cons, step_handle htask, handleEvent_of_isMessageUpdate now hup]

/-- The task of the event whose context is marked. -/
theorem getElem?_modify_done {tasks : List (RpcTask H)} {phase : Phase H}
    (h : tasks[i]? = some ⟨ev, phase⟩)
    (target : ℕ) (status : Json) :
    ((setPhase tasks i .done).modify target (markContext status))[i]? = some ⟨ev, .done⟩ := by
  rw [List.getElem?_modify, getElem?_setPhase_self h]
  by_cases htarget : target = i <;> simp [htarget, markContext]

/-! ## One update -/

/-- **A withdrawal that finds a command** goes no further. -/
theorem handled_of_marking {target : ℕ} {status : Json} (hup : ev.isMessageUpdate = true)
    (htask : w.tasks[i]? = some ⟨ev, .start⟩) (now : ℤ)
    (h : (handleResponse valueToString w.inflight ev : Phase H) = .marking target status) :
    (handled m valueToString w i now).pending = w.pending ∧
      (handled m valueToString w i now).calls = w.calls ∧
      (handled m valueToString w i now).inflight = w.inflight := by
  rw [handled_eq hup htask, h, exec_cons, step_mark (getElem?_setPhase_self htask _), exec_cons,
    step_resolve_of_ne (getElem?_modify_done (getElem?_setPhase_self htask _) target status)]
  · exact ⟨rfl, rfl, rfl⟩
  · intro id result hphase
    cases hphase

/-- **An update that is no outcome** changes nothing. -/
theorem handled_of_done (hup : ev.isMessageUpdate = true)
    (htask : w.tasks[i]? = some ⟨ev, .start⟩) (now : ℤ)
    (h : (handleResponse valueToString w.inflight ev : Phase H) = .done) :
    (handled m valueToString w i now).pending = w.pending ∧
      (handled m valueToString w i now).calls = w.calls ∧
      (handled m valueToString w i now).inflight = w.inflight := by
  have hself := getElem?_setPhase_self htask (Phase.done : Phase H)
  rw [handled_eq hup htask, h, exec_cons, step_mark_of_ne hself, exec_cons,
    step_resolve_of_ne hself]
  · exact ⟨rfl, rfl, rfl⟩
  · intro id result hphase
    cases hphase
  · intro target status hphase
    cases hphase

/-- **An outcome** is taken to the call that waits for it. -/
theorem handled_of_resolving {id : ℕ} {result : Except RpcError Json}
    (hup : ev.isMessageUpdate = true) (htask : w.tasks[i]? = some ⟨ev, .start⟩) (now : ℤ)
    (h : (handleResponse valueToString w.inflight ev : Phase H) = .resolving id result) :
    (handled m valueToString w i now).pending =
        (w.pending.get? id).elim w.pending (fun _ => w.pending.swapRemove id) ∧
      (handled m valueToString w i now).calls =
        (w.pending.get? id).elim w.calls (fun c => w.calls.modify c (send result)) ∧
      (handled m valueToString w i now).inflight = w.inflight := by
  have hself := getElem?_setPhase_self htask (Phase.resolving id result : Phase H)
  rw [handled_eq hup htask, h, exec_cons, step_mark_of_ne hself, exec_cons, step_resolve hself]
  · cases w.pending.get? id <;> exact ⟨rfl, rfl, rfl⟩
  · intro target status hphase
    cases hphase

/-- The phase of an update, from what it says. -/
theorem handleResponse_eq {id : ℕ} {data status : Json} (inflight : IndexMap ℕ ℕ)
    (hstatus : statusOf ev = some (id, data, status)) :
    (handleResponse valueToString inflight ev : Phase H) =
      (if statusIsCancelled status then inflight.get? id else none).elim
        ((terminalOutcome valueToString data status).elim .done (.resolving id))
        (.marking · status) := by
  rw [handleResponse, hstatus, ← responseOutcome_eq]
  cases h : (if statusIsCancelled status then inflight.get? id else none) with
  | some target => simp only [h, Option.elim_some]
  | none =>
    simp only [h, Option.elim_none]
    cases responseOutcome valueToString data status <;> rfl

theorem terminalOutcome_of_cancelled (valueToString : Json → String) (data : Json) {status : Json}
    (h : statusIsCancelled status = true) :
    ∃ result, terminalOutcome valueToString data status = some result := by
  rw [terminalOutcome, code_of_statusIsCancelled h, if_neg (by decide), if_pos rfl]
  exact ⟨_, rfl⟩

theorem Resolves.of_unchanged {w w' : RpcState H} {id : ℕ}
    {outcome : Option (Except RpcError Json)} (hpending : w'.pending = w.pending)
    (hcalls : w'.calls = w.calls) (hinflight : w'.inflight = w.inflight)
    (h : outcome = none ∨ w.pending.get? id = none) : Resolves w w' id outcome where
  resolved result c houtcome hc := by
    rcases h with h | h
    · cases h.symm.trans houtcome
    · cases h.symm.trans hc
  kept _ := ⟨hpending, hcalls⟩
  others j _ := by
    rw [hpending, hinflight]
    exact ⟨rfl, rfl⟩

/-- **When a terminal update resolves the call.**  The call that waits for the message is
resolved by a success or an error, and by nothing else, unless the update withdraws a command
that is being served under the same id. -/
theorem handled_resolves_iff {id : ℕ} {data status : Json} (hup : ev.isMessageUpdate = true)
    (htask : w.tasks[i]? = some ⟨ev, .start⟩) (hstatus : statusOf ev = some (id, data, status))
    (now : ℤ) :
    Resolves w (handled m valueToString w i now) id (terminalOutcome valueToString data status) ↔
      ¬ (statusIsCancelled status = true ∧ w.inflight.get? id ≠ none ∧
        w.pending.get? id ≠ none) := by
  have hphase : (handleResponse valueToString w.inflight ev : Phase H) = _ :=
    handleResponse_eq w.inflight hstatus
  cases hfound : (if statusIsCancelled status then w.inflight.get? id else none) with
  | some target =>
    rw [hfound] at hphase
    obtain ⟨hpending, hcalls, hinflight⟩ := handled_of_marking (m := m) hup htask now hphase
    obtain ⟨hcancelled, hget⟩ : statusIsCancelled status = true ∧
        w.inflight.get? id = some target := by
      split at hfound
      · exact ⟨‹_›, hfound⟩
      · cases hfound
    constructor
    · rintro hresolves ⟨-, -, hwaits⟩
      obtain ⟨c, hc⟩ := Option.ne_none_iff_exists'.mp hwaits
      obtain ⟨result, houtcome⟩ := terminalOutcome_of_cancelled valueToString data hcancelled
      have hgone := (hresolves.resolved result c houtcome hc).1
      rw [hpending, hc] at hgone
      cases hgone
    · intro hno
      refine .of_unchanged hpending hcalls hinflight (.inr ?_)
      by_contra hwaits
      refine hno ⟨hcancelled, ?_, hwaits⟩
      rw [hget]
      exact Option.some_ne_none target
  | none =>
    rw [hfound, Option.elim_none] at hphase
    refine iff_of_true ?_ fun hbad => ?_
    · cases houtcome : terminalOutcome valueToString data status with
      | none =>
        rw [houtcome] at hphase
        obtain ⟨hpending, hcalls, hinflight⟩ := handled_of_done (m := m) hup htask now hphase
        exact .of_unchanged hpending hcalls hinflight (.inl rfl)
      | some result =>
        rw [houtcome] at hphase
        obtain ⟨hpending, hcalls, hinflight⟩ :=
          handled_of_resolving (m := m) hup htask now hphase
        cases hwaits : w.pending.get? id with
        | none =>
          rw [hwaits] at hpending hcalls
          exact .of_unchanged hpending hcalls hinflight (.inr hwaits)
        | some c =>
          rw [hwaits] at hpending hcalls
          refine ⟨fun result' c' h hc => ?_, fun h => ?_, fun j hj => ?_⟩
          · cases h
            cases hwaits.symm.trans hc
            rw [hpending]
            exact ⟨IndexMap.get?_swapRemove_self .., hcalls⟩
          · rcases h with h | h
            · cases h
            · cases hwaits.symm.trans h
          · rw [hpending, hinflight]
            exact ⟨IndexMap.get?_swapRemove_of_ne hj, rfl⟩
    · rw [if_pos hbad.1] at hfound
      exact hbad.2.1 hfound

/-! ## A call of a method of one's own -/

namespace SelfCall

/-- A request on the app's own method, and its withdrawal. -/
def request : Event :=
  ⟨Event.MESSAGE_CREATE, "rpc",
    .ofList [("id", .ofU64 7), ("data",
      .ofList [("type", .string "rpc"), ("method", .string "reset"),
        ("request", .object .empty)])]⟩

def cancelledStatus : Json :=
  .ofList [("code", .string "error"), ("message", .ofList [("cancelled_at", .ofU64 1)])]

def withdrawnData : Json :=
  .ofList [("method", .string "reset"), ("status", cancelledStatus)]

def withdrawal : Event :=
  ⟨Event.MESSAGE_UPDATE, "rpc", .ofList [("id", .ofU64 7), ("data", withdrawnData)]⟩

def manager : RpcManager Unit :=
  ⟨none, IndexMap.ofList [((none, "reset"), ())]⟩

/-- The call waits for its response, while the app serves its request. -/
def served : RpcState Unit :=
  exec (step manager fun _ => "") (init Unit [request, withdrawal] 1)
    [.call 0 (.created 7), .call 0 .register, .handle 0 0, .serve 0 .track]

/-- The withdrawal stops the handler, and the call goes on waiting. -/
theorem withdrawal_unresolved :
    statusOf withdrawal = some (7, withdrawnData, cancelledStatus) ∧
      terminalOutcome (fun _ => "") withdrawnData cancelledStatus =
        some (.error (.cancelled "reset")) ∧
      served.pending.get? 7 = some 0 ∧
      (handled manager (fun _ => "") served 1 0).pending.get? 7 = some 0 ∧
      ¬ Resolves served (handled manager (fun _ => "") served 1 0) 7
        (terminalOutcome (fun _ => "") withdrawnData cancelledStatus) := by
  have hkept : (handled manager (fun _ => "") served 1 0).pending.get? 7 = some 0 := rfl
  refine ⟨rfl, rfl, rfl, hkept, fun hresolves => ?_⟩
  have hgone := (hresolves.resolved (.error (.cancelled "reset")) 0 rfl rfl).1
  rw [hkept] at hgone
  cases hgone

def successData : Json :=
  .ofList [("status", statusPayload "success" .null), ("response", .bool true)]

/-- The update that the app itself writes when it is done. -/
def success : Event :=
  ⟨Event.MESSAGE_UPDATE, "rpc", .ofList [("id", .ofU64 7), ("data", successData)]⟩

def succeeding : RpcState Unit := { served with tasks := served.tasks ++ [⟨success, .start⟩] }

theorem success_resolves :
    Resolves succeeding (handled manager (fun _ => "") succeeding 2 0) 7
      (terminalOutcome (fun _ => "") successData (statusPayload "success" .null)) := by
  have htask : succeeding.tasks[2]? = some ⟨success, .start⟩ := rfl
  have hstatus : statusOf success = some (7, successData, statusPayload "success" .null) := rfl
  refine (handled_resolves_iff rfl htask hstatus 0).mpr ?_
  rintro ⟨hcancelled, -, -⟩
  cases hcancelled

end SelfCall
end Doover
