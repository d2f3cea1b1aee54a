import Doover.RpcTasks

/-! # Writing after a cancellation

Once a cancelling update of a message is processed, no update of the message should be
issued any more.  The update looks its command up in `inflight`, which holds it from after
the filter until the handler returns, and marks the context it finds; the mark stops what is
still to be checked.  Afterwards the message is quiet when the flag of every context that
could write was set, nothing checked earlier is on its way, and no request for the message is
still to pass the filter (`Quiet`).

`Quiet` is kept by every step, and no step issues an update of a quiet message
(`quiet_step`); conversely a message that is not quiet has a continuation in which an
update is issued (`writable_of_not_quiet`).  And the update leaves the message quiet exactly
when, before its last step, nothing is on its way and the only task that may still write is
the one it found (`quiet_processed_iff`).  A cancellation processed before the command was in
`inflight`, or after, finds none.
-/

namespace Doover
namespace RpcCancellation
open Json RpcState StepRuns
variable {H : Type} {m : RpcManager H} {valueToString : Json → String}

/-- The updates of a message that were issued. -/
def updatesOf (w : RpcState H) (id : ℕ) : List MessageUpdate := w.updates.filter fun u => u.id = id

/-- The event withdraws the command of message `id`. -/
def Cancels (ev : Event) (id : ℕ) : Prop :=
  ev.isMessageUpdate = true ∧
    ∃ data status, statusOf ev = some (id, data, status) ∧ statusIsCancelled status = true

/-- A cancelling update of the message has been processed. -/
def Withdrawn (w : RpcState H) (id : ℕ) : Prop :=
  ∃ t ∈ w.tasks, Cancels t.event id ∧ t.phase = .done

/-- Whom the task itself may still answer. -/
def respondsTo (s : Service H) : Option ℕ :=
  match s.stage with
  | .accepted | .running | .returned _ | .untracked _ => s.ctx.request.messageId
  | .failed _ shouldRespond => shouldRespond
  | .finished => none

/-- A request being served may still decide to write to message `id`, by itself or
through a clone of its context. -/
def MayWrite (id : ℕ) (s : Service H) : Prop :=
  s.ctx.cancelled = none ∧
    (respondsTo s = some id ∨ s.ctx.held = true ∧ s.ctx.request.messageId = some id)

/-- The task may still decide to write to message `id`. -/
def Threatens (m : RpcManager H) (id : ℕ) (t : RpcTask H) : Prop :=
  match t.phase with
  | .start => ∃ now request, m.runs now t.event = some request ∧ request.messageId = some id
  | .serving s => MayWrite id s
  | _ => False

/-- Nothing writes to message `id` any more. -/
structure Quiet (m : RpcManager H) (id : ℕ) (w : RpcState H) : Prop where
  checked : ∀ u ∈ w.checked, u.id ≠ id
  tasks : ∀ t ∈ w.tasks, ¬ Threatens m id t

/-! ## One request -/

section Service
variable {s : Service H} {id : ℕ}

theorem mayWrite_markCancelled (s : Service H) (status : Json) :
    ¬ MayWrite id { s with ctx := s.ctx.markCancelled status } := by
  rintro ⟨hcancelled, -⟩
  rw [RpcContext.markCancelled] at hcancelled
  split at hcancelled <;> cases hcancelled

/-- A step of the request gives it no right to write. -/
theorem mayWrite_of_next {a : ServiceAct} (h : MayWrite id (s.next a).1) : MayWrite id s := by
  obtain ⟨ctx, stage⟩ := s
  obtain ⟨hcancelled, hwrite⟩ := h
  cases a with
  | track | returns | panics | untrack | report | checkFailure =>
    cases stage <;> simp_all [Service.next, MayWrite, respondsTo]
  | drop => cases stage <;> simp_all [Service.next, MayWrite, respondsTo]
  | checkResponse =>
    cases stage with
    | untracked result =>
      cases result with
      | ok response => simp_all [Service.next, MayWrite, respondsTo]
      | error e =>
        refine ⟨hcancelled, hwrite.imp_left fun hrespond => ?_⟩
        exact (Option.filter_eq_some_iff.mp hrespond).1
    | _ => exact ⟨hcancelled, hwrite⟩

/-- What a step of the request decides to write, the request may write. -/
theorem mayWrite_of_mem_next {a : ServiceAct} {u : MessageUpdate} (h : u ∈ (s.next a).2) :
    MayWrite u.id s := by
  obtain ⟨ctx, stage⟩ := s
  cases a with
  | report r =>
    cases stage with
    | accepted => cases h
    | _ =>
      by_cases hheld : ctx.held = true
      · rw [Service.next, if_pos hheld] at h
        obtain ⟨hid, hcancelled⟩ := RpcContext.report_eq_some h
        exact ⟨hcancelled, .inr ⟨hheld, hid⟩⟩
      · rw [Service.next, if_neg hheld] at h
        cases h
  | checkResponse =>
    cases stage with
    | untracked result =>
      cases result with
      | error e => cases h
      | ok response =>
        obtain ⟨id, hid, rfl⟩ := Option.map_eq_some_iff.mp h
        obtain ⟨hmessage, hlive⟩ := Option.filter_eq_some_iff.mp hid
        rw [Bool.not_eq_true'] at hlive
        exact ⟨RpcContext.isCancelled_eq_false.mp hlive, .inl hmessage⟩
    | _ => cases h
  | checkFailure =>
    cases stage with
    | failed e shouldRespond =>
      by_cases hc : ctx.isCancelled = true
      · simp only [Service.next, if_pos hc] at h
        cases h
      · simp only [Service.next, if_neg hc] at h
        obtain ⟨id, hid, rfl⟩ := Option.map_eq_some_iff.mp h
        rw [Bool.not_eq_true] at hc
        exact ⟨RpcContext.isCancelled_eq_false.mp hc, .inl hid⟩
    | _ => cases h
  | track | returns | panics | untrack | drop => cases stage <;> cases h

end Service

/-! ## One step -/

section Step
variable {w : RpcState H} {id : ℕ}

/-- A request that passes the filter was about to. -/
theorem not_threatens_handleEvent {now : ℤ} {inflight : IndexMap ℕ ℕ} {ev : Event}
    (h : ¬ Threatens m id ⟨ev, .start⟩) :
    ¬ Threatens m id ⟨ev, handleEvent m valueToString inflight now ev⟩ := by
  rw [handleEvent]
  by_cases hmsg : (ev.isMessageCreate || ev.isOneShot) = true
  · rw [if_pos hmsg]
    cases hreq : m.acceptRequest now ev with
    | none => exact not_false
    | some request =>
      rintro ⟨-, hid⟩
      have hid' : request.messageId = some id := hid.elim (fun h => h) And.right
      exact h ⟨now, request, (if_pos hmsg).trans hreq, hid'⟩
  · rw [if_neg hmsg]
    by_cases hup : ev.isMessageUpdate = true
    · rw [if_pos hup, handleResponse]
      split
      · exact not_false
      · split
        · exact not_false
        · split <;> exact not_false
    · rw [if_neg hup]
      exact not_false

/-- No step of a task gives it a right to write. -/
theorem not_threatens_taskStep {inflight : IndexMap ℕ ℕ} {j : ℕ} {a : RpcAct} {t t' : RpcTask H}
    (hstep : TaskStep m valueToString inflight j a t t') (h : ¬ Threatens m id t) :
    ¬ Threatens m id t' := by
  cases hstep with
  | same => exact h
  | handle ev now => exact not_threatens_handleEvent h
  | serve ev s b => exact fun hthreat => h (mayWrite_of_next hthreat)
  | mark | resolve => exact not_false
  | cancelled i ev s status => exact mayWrite_markCancelled s status

/-- **One step** keeps a message quiet, and issues no update of it. -/
theorem quiet_step (h : Quiet m id w) (a : RpcAct) :
    Quiet m id (step m valueToString w a) ∧
      updatesOf (step m valueToString w a) id = updatesOf w id := by
  have htasks : ∀ t' ∈ (step m valueToString w a).tasks, ¬ Threatens m id t' := by
    intro t' ht'
    obtain ⟨j, t, ht, hstep⟩ := taskStep_of_mem m valueToString ht'
    exact not_threatens_taskStep hstep (h.tasks t (List.mem_of_getElem? ht))
  have hframe : (∀ i b, a ≠ .serve i b) → (∀ n, a ≠ .issue n) →
      Quiet m id (step m valueToString w a) ∧
        updatesOf (step m valueToString w a) id = updatesOf w id := by
    intro hserve hissue
    obtain ⟨-, hchecked, hupdates⟩ := step_frame (w := w) m valueToString hserve hissue
    refine ⟨⟨?_, htasks⟩, congrArg (List.filter _) hupdates⟩
    rw [hchecked]
    exact h.checked
  cases a with
  | issue n =>
    rw [step]
    cases hu : w.checked[n]? with
    | none => exact ⟨h, rfl⟩
    | some u =>
      have hne : u.id ≠ id := h.checked u (List.mem_of_getElem? hu)
      refine ⟨⟨fun u' hu' => h.checked u' (List.mem_of_mem_eraseIdx hu'), h.tasks⟩, ?_⟩
      simp [updatesOf, hne]
  | serve i b =>
    by_cases hserving : ∃ ev s, w.tasks[i]? = some ⟨ev, .serving s⟩
    · obtain ⟨ev, s, ht⟩ := hserving
      have hquiet : ¬ MayWrite id s := h.tasks _ (List.mem_of_getElem? ht)
      refine ⟨⟨?_, htasks⟩, ?_⟩
      · rw [step_serve ht]
        intro u hu hid
        rcases List.mem_append.mp hu with hold | hnew
        · exact h.checked u hold hid
        · exact hquiet (hid ▸ mayWrite_of_mem_next (Option.mem_toList.mp hnew))
      · rw [step_serve ht]
        rfl
    · rw [step_serve_of_ne fun ev s ht => hserving ⟨ev, s, ht⟩]
      exact ⟨h, rfl⟩
  | call | handle | mark | resolve =>
    exact hframe (fun i b hab => by cases hab) (fun n hab => by cases hab)

/-- No update of a quiet message is ever issued. -/
theorem updatesOf_exec (h : Quiet m id w) (as : List RpcAct) :
    updatesOf (exec (step m valueToString) w as) id = updatesOf w id := by
  have hinv : Quiet m id (exec (step m valueToString) w as) ∧
      updatesOf (exec (step m valueToString) w as) id = updatesOf w id := by
    refine exec_invariant _ (I := fun w' => Quiet m id w' ∧ updatesOf w' id = updatesOf w id)
      ⟨h, rfl⟩ fun w' hw' a _ => ?_
    obtain ⟨hquiet, hupdates⟩ := quiet_step hw'.1 a
    exact ⟨hquiet, hupdates.trans hw'.2⟩
  exact hinv.2

end Step

/-! ## A message that is not quiet -/

section Write
variable {w : RpcState H} {id i : ℕ} {ev : Event} {ctx : RpcContext H}

/-- There is a continuation in which an update of the message is issued. -/
def Writable (m : RpcManager H) (valueToString : Json → String) (w : RpcState H) (id : ℕ) : Prop :=
  ∃ as, updatesOf (exec (step m valueToString) w as) id ≠ updatesOf w id

theorem Writable.of_step {a : RpcAct} (h : Writable m valueToString (step m valueToString w a) id)
    (hsame : (step m valueToString w a).updates = w.updates) : Writable m valueToString w id := by
  obtain ⟨as, has⟩ := h
  refine ⟨a :: as, fun heq => has ?_⟩
  rw [exec_cons] at heq
  exact heq.trans (congrArg (List.filter _) hsame.symm)

theorem writable_of_checked {u : MessageUpdate} (hu : u ∈ w.checked) :
    Writable m valueToString w u.id := by
  obtain ⟨n, hn⟩ := List.mem_iff_getElem?.mp hu
  refine ⟨[.issue n], fun heq => ?_⟩
  have hissue : (step m valueToString w (.issue n)).updates = w.updates ++ [u] := by
    rw [step, hn]
  rw [exec_cons, exec_nil, updatesOf, hissue, List.filter_append, updatesOf] at heq
  have hlen := congrArg List.length heq
  simp at hlen

/-- A step of the request that writes nothing yet. -/
theorem writable_of_next {s : Service H} (ht : w.tasks[i]? = some ⟨ev, .serving s⟩)
    (a : ServiceAct) (h : ∀ w' : RpcState H, w'.tasks[i]? = some ⟨ev, .serving (s.next a).1⟩ →
      Writable m valueToString w' id) : Writable m valueToString w id := by
  refine Writable.of_step (a := .serve i a) (h _ ?_) ?_
  · rw [step_serve ht]
    exact getElem?_setPhase_self ht _
  · rw [step_serve ht]

/-- A step of the request that decides on a write. -/
theorem writable_of_next_write {s : Service H} (ht : w.tasks[i]? = some ⟨ev, .serving s⟩)
    (a : ServiceAct) {u : MessageUpdate} (h : (s.next a).2 = some u) :
    Writable m valueToString w u.id := by
  refine Writable.of_step (a := .serve i a) (writable_of_checked (u := u) ?_) ?_
  · rw [step_serve ht, h]
    exact List.mem_append_right _ List.mem_cons_self
  · rw [step_serve ht]

theorem writable_of_failed {e : RpcError} (hc : ctx.cancelled = none)
    (ht : w.tasks[i]? = some ⟨ev, .serving ⟨ctx, .failed e (some id)⟩⟩) :
    Writable m valueToString w id := by
  have hlive := RpcContext.isCancelled_eq_false.mpr hc
  refine writable_of_next_write ht .checkFailure (u := sendError ctx.request.channel id e) ?_
  rw [Service.next, hlive]
  rfl

theorem writable_of_untracked {result : Except RpcError Json} (hc : ctx.cancelled = none)
    (hid : ctx.request.messageId = some id)
    (ht : w.tasks[i]? = some ⟨ev, .serving ⟨ctx, .untracked result⟩⟩) :
    Writable m valueToString w id := by
  have hlive := RpcContext.isCancelled_eq_false.mpr hc
  have hrespond : (ctx.request.messageId.filter fun _ => !ctx.isCancelled) = some id := by
    rw [hid, hlive]
    rfl
  cases result with
  | ok response =>
    refine writable_of_next_write ht .checkResponse
      (u := sendResult ctx.request.channel id response) ?_
    simp only [Service.next, hrespond, Option.map_some]
  | error e =>
    refine writable_of_next ht .checkResponse fun w' ht' => ?_
    have hfailed : w'.tasks[i]? = some ⟨ev, .serving ⟨ctx, .failed e (some id)⟩⟩ := by
      simpa only [Service.next, hrespond] using ht'
    exact writable_of_failed hc hfailed

/-- The task goes through its stages and answers. -/
theorem writable_of_respondsTo {s : Service H} (hc : s.ctx.cancelled = none)
    (hid : respondsTo s = some id) (ht : w.tasks[i]? = some ⟨ev, .serving s⟩) :
    Writable m valueToString w id := by
  obtain ⟨ctx, stage⟩ := s
  have hreturned : ∀ (w' : RpcState H) (result : Except RpcError Json),
      ctx.request.messageId = some id →
      w'.tasks[i]? = some ⟨ev, .serving ⟨ctx, .returned result⟩⟩ →
      Writable m valueToString w' id := by
    intro w' result hmessage ht'
    exact writable_of_next ht' .untrack fun _ ht'' => writable_of_untracked hc hmessage ht''
  have hrunning : ∀ w' : RpcState H, ctx.request.messageId = some id →
      w'.tasks[i]? = some ⟨ev, .serving ⟨ctx, .running⟩⟩ → Writable m valueToString w' id := by
    intro w' hmessage ht'
    exact writable_of_next ht' (.returns (.ok .null)) fun w'' ht'' =>
      hreturned w'' _ hmessage ht''
  cases stage with
  | accepted => exact writable_of_next ht .track fun w' ht' => hrunning w' hid ht'
  | running => exact hrunning w hid ht
  | returned result => exact hreturned w result hid ht
  | untracked result => exact writable_of_untracked hc hid ht
  | failed e shouldRespond =>
    obtain rfl : shouldRespond = some id := hid
    exact writable_of_failed hc ht
  | finished => cases hid

theorem writable_of_mayWrite {s : Service H} (h : MayWrite id s)
    (ht : w.tasks[i]? = some ⟨ev, .serving s⟩) : Writable m valueToString w id := by
  obtain ⟨ctx, stage⟩ := s
  obtain ⟨hc, hresponds | ⟨hheld, hid⟩⟩ := h
  · exact writable_of_respondsTo hc hresponds ht
  · have hreport : ctx.report (.acknowledge 0) ≠ none := by
      simp [RpcContext.report, RpcContext.mayWrite, RpcContext.isCancelled_eq_false.mpr hc,
        Report.data, show ctx.request.messageId = some id from hid]
    obtain ⟨u, hu⟩ := Option.ne_none_iff_exists'.mp hreport
    cases hstage : stage with
    | accepted =>
      subst hstage
      exact writable_of_respondsTo hc hid ht
    | _ =>
      have hwrite : (Service.next ⟨ctx, stage⟩ (.report (.acknowledge 0))).2 = some u := by
        rw [hstage, Service.next, if_pos hheld]
        exact hu
      obtain rfl : u.id = id :=
        Option.some.inj ((RpcContext.report_eq_some hu).1.symm.trans hid)
      exact writable_of_next_write ht _ hwrite

/-- **A message that is not quiet** may still be written to. -/
theorem writable_of_not_quiet (h : ¬ Quiet m id w) : Writable m valueToString w id := by
  by_cases hchecked : ∃ u ∈ w.checked, u.id = id
  · obtain ⟨u, hu, rfl⟩ := hchecked
    exact writable_of_checked hu
  · by_cases htasks : ∃ t ∈ w.tasks, Threatens m id t
    · obtain ⟨⟨ev, phase⟩, hmem, hthreat⟩ := htasks
      obtain ⟨i, hi⟩ := List.mem_iff_getElem?.mp hmem
      cases phase with
      | start =>
        obtain ⟨now, request, hruns, hid⟩ := hthreat
        -- the request passes the filter at that time
        have hphase : handleEvent m valueToString w.inflight now ev =
            .serving ⟨⟨request, none, true⟩, .accepted⟩ := by
          rw [handleEvent]
          rw [RpcManager.runs] at hruns
          split at hruns
          · rename_i hmsg
            rw [if_pos hmsg, hruns]
          · cases hruns
        have hstep : step m valueToString w (.handle i now) =
            { w with tasks := setPhase w.tasks i (.serving ⟨⟨request, none, true⟩, .accepted⟩) } := by
          rw [step_handle hi, hphase]
        refine Writable.of_step (a := .handle i now) ?_ (by rw [hstep])
        rw [hstep]
        exact writable_of_respondsTo (s := ⟨⟨request, none, true⟩, .accepted⟩) rfl hid
          (getElem?_setPhase_self hi _)
      | serving s => exact writable_of_mayWrite hthreat hi
      | marking | resolving | done => exact hthreat.elim
    · exfalso
      exact h ⟨fun u hu hid => hchecked ⟨u, hu, hid⟩, fun t ht hthreat => htasks ⟨t, ht, hthreat⟩⟩

end Write

/-! ## The cancelling update -/

section Update
variable {w : RpcState H} {ev : Event} {id u : ℕ}

/-- Where a cancelling update goes when it finds a context. -/
theorem handleEvent_of_cancels (m : RpcManager H) (valueToString : Json → String)
    {inflight : IndexMap ℕ ℕ} {i : ℕ} (now : ℤ)
    (h : Cancels ev id) (hfound : inflight.get? id = some i) :
    ∃ status, handleEvent m valueToString inflight now ev = .marking i status := by
  obtain ⟨hup, data, status, hstatus, hcancelled⟩ := h
  refine ⟨status, ?_⟩
  rw [handleEvent_of_isMessageUpdate now hup, handleResponse, hstatus]
  simp only [hcancelled, hfound, if_true]

/-- And when it finds none: it may be for a call that waits. -/
theorem handleEvent_of_cancels_none (m : RpcManager H) (valueToString : Json → String)
    {inflight : IndexMap ℕ ℕ} (now : ℤ) (h : Cancels ev id) (hnone : inflight.get? id = none) :
    ∃ result, handleEvent m valueToString inflight now ev = .resolving id result := by
  obtain ⟨hup, data, status, hstatus, hcancelled⟩ := h
  have hcode := code_of_statusIsCancelled hcancelled
  have hintermediate : ¬ "error" ∈ ["sent", "acknowledged", "deferred", "pending"] := by decide
  refine ⟨.error (.cancelled (((data.get? "method").bind asStr).getD "unknown")), ?_⟩
  rw [handleEvent_of_isMessageUpdate now hup, handleResponse, hstatus]
  simp only [hcancelled, hnone, if_true, responseOutcome, hcode, Option.getD_some,
    if_neg hintermediate]

/-- The command a context is looked up for is being served. -/
def Tracked (w : RpcState H) : Prop :=
  ∀ id i, w.inflight.get? id = some i → ∃ ev s, w.tasks[i]? = some ⟨ev, .serving s⟩

/-- An entry was there, or is the task's own. -/
theorem of_get?_inflightAfter {s : Service H} {j i : ℕ} {inflight : IndexMap ℕ ℕ}
    {b : ServiceAct} (h : (s.inflightAfter j inflight b).get? id = some i) :
    i = j ∨ inflight.get? id = some i := by
  unfold Service.inflightAfter at h
  split at h
  · split at h
    · rename_i id' _ _
      by_cases hid : id = id'
      · subst hid
        rw [IndexMap.get?_insert_self] at h
        exact .inl (Option.some.inj h).symm
      · rw [IndexMap.get?_insert_of_ne _ hid] at h
        exact .inr h
    · exact .inr h
  · split at h
    · rename_i id' _ _
      by_cases hid : id = id'
      · subst hid
        rw [IndexMap.get?_swapRemove_self] at h
        cases h
      · rw [IndexMap.get?_swapRemove_of_ne hid] at h
        exact .inr h
    · exact .inr h
  · exact .inr h

theorem tracked_step (h : Tracked w) (a : RpcAct) : Tracked (step m valueToString w a) := by
  intro id i hfound
  have hserving : ∃ ev s, w.tasks[i]? = some ⟨ev, .serving s⟩ := by
    by_cases hserve : ∃ j b, a = .serve j b
    · obtain ⟨j, b, rfl⟩ := hserve
      by_cases htask : ∃ ev s, w.tasks[j]? = some ⟨ev, .serving s⟩
      · obtain ⟨ev, s, hj⟩ := htask
        rw [step_serve hj] at hfound
        rcases of_get?_inflightAfter hfound with rfl | hold
        · exact ⟨ev, s, hj⟩
        · exact h id i hold
      · rw [step_serve_of_ne fun ev s hj => htask ⟨ev, s, hj⟩] at hfound
        exact h id i hfound
    · have hframe : (step m valueToString w a).inflight = w.inflight := by
        cases a with
        | issue n =>
          rw [step]
          cases w.checked[n]? <;> rfl
        | serve j b => exact absurd ⟨j, b, rfl⟩ hserve
        | call | handle | mark | resolve =>
          exact (step_frame m valueToString (fun j b hab => hserve ⟨j, b, hab⟩) (by simp)).1
      rw [hframe] at hfound
      exact h id i hfound
  obtain ⟨ev, s, hi⟩ := hserving
  obtain ⟨s', hi', -⟩ := serving_step m valueToString hi a
  exact ⟨ev, s', hi'⟩

theorem tracked_run (m : RpcManager H) (valueToString : Json → String) (events : List Event)
    (calls : ℕ) (as : List RpcAct) :
    Tracked (exec (step m valueToString) (init H events calls) as) := by
  refine exec_invariant _ (I := Tracked) ?_ fun w hw a _ => tracked_step hw a
  intro id i hfound
  rw [init, IndexMap.get?_empty] at hfound
  cases hfound

/-- An update that was looked up waits for its last step. -/
theorem waits_run (m : RpcManager H) (valueToString : Json → String) {phase : Phase H}
    (hphase : (∃ i status, phase = .marking i status) ∨ (∃ id result, phase = .resolving id result))
    (h : w.tasks[u]? = some ⟨ev, phase⟩) (as : List RpcAct) :
    (exec (step m valueToString) w as).tasks[u]? = some ⟨ev, phase⟩ ∨
      (exec (step m valueToString) w as).tasks[u]? = some ⟨ev, .done⟩ := by
  refine exec_invariant _ (I := fun w : RpcState H => w.tasks[u]? = some ⟨ev, phase⟩ ∨
    w.tasks[u]? = some ⟨ev, .done⟩) (.inl h) fun w hw a _ => ?_
  rcases hw with hu | hu
  · obtain ⟨t', ht', hstep⟩ := taskStep_of_getElem? m valueToString hu a
    cases hstep with
    | same => exact .inl ht'
    | mark | resolve => exact .inr ht'
    | handle | serve | cancelled => rcases hphase with ⟨_, _, h⟩ | ⟨_, _, h⟩ <;> cases h
  · obtain ⟨t', ht', hstep⟩ := taskStep_of_getElem? m valueToString hu a
    cases hstep with
    | same => exact .inr ht'

/-- The update has found whoever may still write to its message: no write is on its way, and
a task that may still decide on one is the one the update found in `inflight` when it looked,
in the state `looked`. -/
structure FindsWriter (m : RpcManager H) (id : ℕ) (looked w : RpcState H) : Prop where
  checked : ∀ u ∈ w.checked, u.id ≠ id
  found : ∀ i t, w.tasks[i]? = some t → Threatens m id t → looked.inflight.get? id = some i

/-- **The mark silences the task that was found**, and no other. -/
theorem quiet_mark_iff {looked : RpcState H} {i : ℕ} {status : Json}
    (hfound : looked.inflight.get? id = some i) (hu : w.tasks[u]? = some ⟨ev, .marking i status⟩)
    (hi : ∃ ev s, w.tasks[i]? = some ⟨ev, .serving s⟩) :
    Quiet m id (step m valueToString w (.mark u)) ↔ FindsWriter m id looked w := by
  obtain ⟨ev', s, hi⟩ := hi
  have hiu : i ≠ u := by
    rintro rfl
    cases hu.symm.trans hi
  have htask : ∀ j, j ≠ i → j ≠ u →
      (step m valueToString w (.mark u)).tasks[j]? = w.tasks[j]? := by
    intro j hji hju
    rw [step_mark hu]
    show ((setPhase w.tasks u .done).modify i (markContext status))[j]? = _
    rw [List.getElem?_modify_ne _ _ (Ne.symm hji), getElem?_setPhase_of_ne hju]
  constructor
  · intro h
    refine ⟨?_, fun j t hj hthreat => ?_⟩
    · rw [show w.checked = (step m valueToString w (.mark u)).checked by rw [step_mark hu]]
      exact h.checked
    · by_cases hji : j = i
      · exact hji ▸ hfound
      · by_cases hju : j = u
        · subst hju
          cases hu.symm.trans hj
          exact hthreat.elim
        · exact absurd hthreat (h.tasks t (List.mem_of_getElem? ((htask j hji hju).trans hj)))
  · intro h
    refine ⟨?_, fun t hmem hthreat => ?_⟩
    · rw [step_mark hu]
      exact h.checked
    · obtain ⟨j, hj⟩ := List.mem_iff_getElem?.mp hmem
      by_cases hji : j = i
      · -- what was found is cancelled
        subst hji
        cases (getElem?_mark_target hu hi).symm.trans hj
        exact mayWrite_markCancelled s status hthreat
      · by_cases hju : j = u
        · subst hju
          have hdone : (step m valueToString w (.mark j)).tasks[j]? = some ⟨ev, .done⟩ := by
            rw [step_mark hu]
            show ((setPhase w.tasks j .done).modify i (markContext status))[j]? = _
            rw [List.getElem?_modify_ne _ _ (Ne.symm hji), getElem?_setPhase_self hu]
          cases hdone.symm.trans hj
          exact hthreat
        · have hsame := h.found j t ((htask j hji hju).symm.trans hj) hthreat
          exact hji (Option.some.inj (hsame.symm.trans hfound))

/-- An update that found nobody leaves everybody as they are. -/
theorem quiet_resolve_iff {looked : RpcState H} {result : Except RpcError Json}
    (hnone : looked.inflight.get? id = none)
    (hu : w.tasks[u]? = some ⟨ev, .resolving id result⟩) :
    Quiet m id (step m valueToString w (.resolve u)) ↔ FindsWriter m id looked w := by
  have hstep : (step m valueToString w (.resolve u)).tasks = setPhase w.tasks u .done ∧
      (step m valueToString w (.resolve u)).checked = w.checked := by
    rw [step_resolve hu]
    cases w.pending.get? id <;> exact ⟨rfl, rfl⟩
  have hthreats : (∃ t ∈ (step m valueToString w (.resolve u)).tasks, Threatens m id t) ↔
      ∃ t ∈ w.tasks, Threatens m id t := by
    simp only [hstep.1, List.mem_iff_getElem?]
    constructor
    · rintro ⟨t, ⟨j, hj⟩, hthreat⟩
      by_cases hju : j = u
      · subst hju
        cases (getElem?_setPhase_self hu .done).symm.trans hj
        exact hthreat.elim
      · exact ⟨t, ⟨j, (getElem?_setPhase_of_ne hju .done).symm.trans hj⟩, hthreat⟩
    · rintro ⟨t, ⟨j, hj⟩, hthreat⟩
      have hju : j ≠ u := by
        rintro rfl
        cases hu.symm.trans hj
        exact hthreat.elim
      exact ⟨t, ⟨j, (getElem?_setPhase_of_ne hju .done).trans hj⟩, hthreat⟩
  constructor
  · intro h
    refine ⟨hstep.2 ▸ h.checked, fun j t hj hthreat => ?_⟩
    obtain ⟨t', ht', hthreat'⟩ := hthreats.mpr ⟨t, List.mem_of_getElem? hj, hthreat⟩
    exact absurd hthreat' (h.tasks t' ht')
  · intro h
    refine ⟨hstep.2.symm ▸ h.checked, fun t ht hthreat => ?_⟩
    obtain ⟨t', ht', hthreat'⟩ := hthreats.mp ⟨t, ht, hthreat⟩
    obtain ⟨j, hj⟩ := List.mem_iff_getElem?.mp ht'
    cases hnone.symm.trans (h.found j t' hj hthreat')

end Update

/-! ## The run -/

section Run
variable (m : RpcManager H) (valueToString : Json → String) (events : List Event) (calls : ℕ)

/-- A cancelling update leaves its message quiet exactly when it has found whoever may still
write to it. -/
theorem quiet_processed_iff {before between : List RpcAct} {u : ℕ} {now : ℤ} {last : RpcAct}
    {ev : Event} {id : ℕ} {looked w : RpcState H}
    (hlooked : exec (step m valueToString) (init H events calls) before = looked)
    (hw : exec (step m valueToString) looked (.handle u now :: between) = w)
    (hstart : looked.tasks[u]? = some ⟨ev, .start⟩) (hcancels : Cancels ev id)
    (hwaits : w.tasks[u]? ≠ some ⟨ev, .done⟩)
    (hlast : (step m valueToString w last).tasks[u]? = some ⟨ev, .done⟩) :
    Quiet m id (step m valueToString w last) ↔ FindsWriter m id looked w := by
  have hhandled : (step m valueToString looked (.handle u now)).tasks[u]? =
      some ⟨ev, handleEvent m valueToString looked.inflight now ev⟩ := by
    rw [step_handle hstart]
    exact getElem?_setPhase_self hstart _
  rw [exec_cons] at hw
  cases hfound : looked.inflight.get? id with
  | some i =>
    obtain ⟨status, hphase⟩ := handleEvent_of_cancels m valueToString now hcancels hfound
    rw [hphase] at hhandled
    have hu : w.tasks[u]? = some ⟨ev, .marking i status⟩ := by
      have hrun := waits_run m valueToString
        (.inl ⟨i, status, rfl⟩) hhandled between
      rw [hw] at hrun
      exact hrun.resolve_right hwaits
    have hmark : last = .mark u := by
      by_contra hne
      cases hlast.symm.trans (marking_step hu hne)
    subst hmark
    refine quiet_mark_iff hfound hu ?_
    -- it is still being served
    obtain ⟨ev', s, hi⟩ := (hlooked ▸ tracked_run m valueToString events calls before) id i hfound
    rw [← hw, ← exec_cons (step m valueToString)]
    exact exec_invariant (step m valueToString)
      (I := fun w : RpcState H => ∃ ev s, w.tasks[i]? = some ⟨ev, .serving s⟩) ⟨ev', s, hi⟩
      fun w ⟨ev, s, hw⟩ a _ => by
        obtain ⟨s', hs', -⟩ := serving_step m valueToString hw a
        exact ⟨ev, s', hs'⟩
  | none =>
    obtain ⟨result, hphase⟩ := handleEvent_of_cancels_none m valueToString now hcancels hfound
    rw [hphase] at hhandled
    have hu : w.tasks[u]? = some ⟨ev, .resolving id result⟩ := by
      have hrun := waits_run m valueToString
        (.inr ⟨id, result, rfl⟩) hhandled between
      rw [hw] at hrun
      exact hrun.resolve_right hwaits
    obtain ⟨t', ht', hstep⟩ := taskStep_of_getElem? m valueToString hu last
    cases hstep with
    | same => cases hlast.symm.trans ht'
    | resolve => exact quiet_resolve_iff hfound hu

/-- **Exactly when a cancelled command stays as its canceller left it.**  In any run, let the
task of a cancelling update look its command up after `before` and make its last step after
`between`.  No later step issues an update of the message, whatever comes, if and only if
the update found whoever could still write: before that last step no write to the message is
on its way, and a task that may still decide on one is the one the update had found. -/
theorem updatesOf_after_cancelled_iff (before between : List RpcAct) (u : ℕ) (now : ℤ)
    (last : RpcAct) (ev : Event) (id : ℕ) (looked w : RpcState H)
    (hlooked : exec (step m valueToString) (init H events calls) before = looked)
    (hw : exec (step m valueToString) looked (.handle u now :: between) = w)
    (hstart : looked.tasks[u]? = some ⟨ev, .start⟩) (hcancels : Cancels ev id)
    (hwaits : w.tasks[u]? ≠ some ⟨ev, .done⟩)
    (hlast : (step m valueToString w last).tasks[u]? = some ⟨ev, .done⟩) :
    (∀ after, updatesOf (exec (step m valueToString) (step m valueToString w last) after) id =
        updatesOf (step m valueToString w last) id) ↔
      FindsWriter m id looked w := by
  rw [← quiet_processed_iff m valueToString events calls hlooked hw hstart hcancels hwaits hlast]
  refine ⟨fun hsame => ?_, fun hquiet after => updatesOf_exec hquiet after⟩
  by_contra hquiet
  obtain ⟨after, hafter⟩ : Writable m valueToString (step m valueToString w last) id :=
    writable_of_not_quiet hquiet
  exact hafter (hsame after)

end Run

/-! ## A command that is written over -/

/-- A manager with one handler. -/
def slowManager : RpcManager Unit := ⟨none, .ofList [((some "dv-rpc", "slow"), ())]⟩

def slowRequest : Event :=
  ⟨Event.MESSAGE_CREATE, "dv-rpc", Json.ofList [("id", .string "42"), ("data", Json.ofList
    [("type", .string "rpc"), ("method", .string "slow"), ("request", .object .empty),
      ("status", Json.ofList [("code", .string "sent")])])]⟩

def slowCancel : Event :=
  ⟨Event.MESSAGE_UPDATE, "dv-rpc", Json.ofList [("id", .string "42"), ("data", Json.ofList
    [("status", Json.ofList [("code", .string "error"),
      ("message", .string "Command cancelled")])])]⟩

/-- The command and its cancellation, handled side by side. -/
def slowRun (as : List RpcAct) : RpcState Unit :=
  exec (step slowManager fun _ => "") (init Unit [slowRequest, slowCancel] 0) as

/-- The request from when it passed the filter to its response. -/
def slowServe : List RpcAct :=
  [.serve 0 .track, .serve 0 (.returns (.ok (.object .empty))), .serve 0 .untrack,
    .serve 0 .checkResponse, .issue 0]

/-- The cancellation comes while the handler runs, which answers all the same. -/
theorem cancelled_while_running :
    updatesOf (slowRun [.handle 0 0, .serve 0 .track, .handle 1 0, .mark 1]) 42 = [] ∧
      ∀ after, updatesOf (exec (step slowManager fun _ => "")
        (slowRun [.handle 0 0, .serve 0 .track, .handle 1 0, .mark 1]) after) 42 = [] := by
  have hcancels : Cancels slowCancel 42 := ⟨rfl, _, _, rfl, rfl⟩
  have hfinds : FindsWriter slowManager 42 (slowRun [.handle 0 0, .serve 0 .track])
      (slowRun [.handle 0 0, .serve 0 .track, .handle 1 0]) := by
    refine ⟨fun u hu => absurd hu List.not_mem_nil, fun i t ht hthreat => ?_⟩
    rcases i with _ | _ | i
    · rfl
    · cases ht
      exact hthreat.elim
    · cases ht
  have hiff := updatesOf_after_cancelled_iff slowManager (fun _ => "") [slowRequest, slowCancel] 0
    [.handle 0 0, .serve 0 .track] [] 1 0 (.mark 1) slowCancel 42
    (slowRun [.handle 0 0, .serve 0 .track])
    (slowRun [.handle 0 0, .serve 0 .track, .handle 1 0]) rfl rfl rfl hcancels
    (fun h => by cases h) rfl
  exact ⟨rfl, hiff.mpr hfinds⟩

/-- The cancellation is processed before the command is put in `inflight`. -/
def cancelEarly : List RpcAct := [.handle 0 0, .handle 1 0, .resolve 1]

/-- The cancellation is processed after the command was taken out of `inflight`. -/
def cancelLate : List RpcAct := .handle 0 0 :: slowServe.take 3 ++ [.handle 1 0, .resolve 1]

/-- A cancellation processed before the command is in `inflight`, or after, is missed:
the response is written over it. -/
theorem response_after_withdrawn :
    (Withdrawn (slowRun cancelEarly) 42 ∧
        updatesOf (slowRun cancelEarly) 42 = [] ∧
        updatesOf (slowRun (cancelEarly ++ slowServe)) 42 =
          [sendResult "dv-rpc" 42 (.object .empty)]) ∧
      (Withdrawn (slowRun cancelLate) 42 ∧
        updatesOf (slowRun cancelLate) 42 = [] ∧
        updatesOf (slowRun (cancelLate ++ slowServe)) 42 =
          [sendResult "dv-rpc" 42 (.object .empty)]) ∧
      ¬ ∀ as bs, Withdrawn (slowRun as) 42 →
        updatesOf (slowRun (as ++ bs)) 42 = updatesOf (slowRun as) 42 := by
  have hcancels : Cancels slowCancel 42 := ⟨rfl, _, _, rfl, rfl⟩
  have hearly : Withdrawn (slowRun cancelEarly) 42 :=
    ⟨⟨slowCancel, .done⟩, List.mem_of_getElem? (i := 1) rfl, hcancels, rfl⟩
  have hlate : Withdrawn (slowRun cancelLate) 42 :=
    ⟨⟨slowCancel, .done⟩, List.mem_of_getElem? (i := 1) rfl, hcancels, rfl⟩
  refine ⟨⟨hearly, rfl, rfl⟩, ⟨hlate, rfl, rfl⟩, fun hclaim => ?_⟩
  have hsame : [sendResult "dv-rpc" 42 (.object .empty)] = [] := hclaim _ slowServe hearly
  cases hsame

end RpcCancellation
end Doover
