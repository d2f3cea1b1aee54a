import Doover.RpcCancellation

/-! # Commands in flight

`inflight` should have a message id exactly while a handler serves that message, so that
a cancellation finds the handler.  An entry is put in before the handler is called and
taken out after it returned, by message id alone; so the map stays exact until a handler
is taken out while another one serves the same message, or panics while none does
(`LeavesExact`), and a cancellation reaches every handler that is running as long as it
finds the only one there is (`FindsAll`).
-/

namespace Doover
namespace RpcInflight
open Json RpcState StepRuns RpcCancellation
variable {H : Type} {m : RpcManager H} {valueToString : Json → String}

/-- The message whose handler runs: called, and not yet past its removal. -/
def served (t : RpcTask H) : Option ℕ :=
  match t.phase with
  | .serving ⟨ctx, .running⟩ | .serving ⟨ctx, .returned _⟩ => ctx.request.requestMessageId
  | _ => none

/-- The message served by the task with this number. -/
def servedAt (w : RpcState H) (i : ℕ) : Option ℕ := w.tasks[i]?.bind served

/-- The map has the messages that are being served. -/
def Exact (w : RpcState H) : Prop :=
  ∀ id, (∃ target, w.inflight.get? id = some target) ↔ ∃ i, servedAt w i = some id

/-- The context of the task with this number is cancelled. -/
def CancelledAt (w : RpcState H) (i : ℕ) : Prop :=
  ∃ ev s, w.tasks[i]? = some ⟨ev, .serving s⟩ ∧ s.ctx.isCancelled = true

/-- Taken out, a handler leaves nobody else with its message; panicking, it leaves
somebody. -/
def LeavesExact (w : RpcState H) : RpcAct → Prop
  | .serve i .untrack => ∀ ev ctx result id,
      w.tasks[i]? = some ⟨ev, .serving ⟨ctx, .returned result⟩⟩ →
        ctx.request.requestMessageId = some id → ∀ j, servedAt w j = some id → j = i
  | .serve i .panics => ∀ ev ctx id, w.tasks[i]? = some ⟨ev, .serving ⟨ctx, .running⟩⟩ →
      ctx.request.requestMessageId = some id → ∃ j, j ≠ i ∧ servedAt w j = some id
  | _ => True

/-- A cancellation finds, of the handlers of its message that are not cancelled already, the
only one there is. -/
def FindsAll (w : RpcState H) : RpcAct → Prop
  | .handle u _ => ∀ ev id i, w.tasks[u]? = some ⟨ev, .start⟩ → Cancels ev id →
      servedAt w i = some id → ¬ CancelledAt w i → w.inflight.get? id = some i
  | _ => True

/-- Once a cancelling update is processed, the handlers that ran when it came are
cancelled. -/
def CancelsAll (m : RpcManager H) (valueToString : Json → String) (w : RpcState H)
    (as : List RpcAct) : Prop :=
  ∀ pre u now mid ev id i, pre ++ .handle u now :: mid <+: as →
    (exec (step m valueToString) w pre).tasks[u]? = some ⟨ev, .start⟩ → Cancels ev id →
    servedAt (exec (step m valueToString) w pre) i = some id →
    (exec (step m valueToString) w (pre ++ .handle u now :: mid)).tasks[u]? = some ⟨ev, .done⟩ →
      CancelledAt (exec (step m valueToString) w (pre ++ .handle u now :: mid)) i

/-! ## One task changes -/

section Step
variable {w : RpcState H}

theorem servedAt_of_getElem? {i : ℕ} {t : RpcTask H} (h : w.tasks[i]? = some t) :
    servedAt w i = served t := by
  rw [servedAt, h]
  rfl

theorem served_handleEvent (inflight : IndexMap ℕ ℕ) (now : ℤ) (ev : Event) :
    served ⟨ev, handleEvent m valueToString inflight now ev⟩ = none := by
  rw [handleEvent]
  split
  · split <;> rfl
  · split
    · rw [handleResponse]
      split
      · rfl
      · split
        · rfl
        · split <;> rfl
    · rfl

/-- A step that is not a handler's own leaves what its task serves. -/
theorem served_taskStep {inflight : IndexMap ℕ ℕ} {j : ℕ} {a : RpcAct} {t t' : RpcTask H}
    (h : ∀ i b, a ≠ .serve i b) (hstep : TaskStep m valueToString inflight j a t t') :
    served t' = served t := by
  cases hstep with
  | same => rfl
  | handle ev now => exact served_handleEvent inflight now ev
  | serve ev s b => exact absurd rfl (h j b)
  | mark | resolve => rfl
  | cancelled i ev s status =>
    obtain ⟨ctx, stage⟩ := s
    cases stage <;> rfl

/-- Only a step of a handler's own task changes what is served, or the map. -/
theorem servedAt_step (m : RpcManager H) (valueToString : Json → String) {a : RpcAct}
    (h : ∀ i b, a ≠ .serve i b) :
    (step m valueToString w a).inflight = w.inflight ∧
      ∀ j, servedAt (step m valueToString w a) j = servedAt w j := by
  refine ⟨?_, fun j => ?_⟩
  · cases a with
    | issue n =>
      rw [step]
      cases w.checked[n]? <;> rfl
    | serve i b => exact absurd rfl (h i b)
    | call | handle | mark | resolve => exact (step_frame m valueToString h (by simp)).1
  · have hrel := taskStep_step m valueToString w a j
    rw [servedAt, servedAt]
    generalize w.tasks[j]? = t, (step m valueToString w a).tasks[j]? = t' at hrel
    cases hrel with
    | none => rfl
    | some hstep => exact served_taskStep h hstep

/-! ## Exactness -/

/-- What a step of its own task makes of what a handler serves. -/
theorem servedAt_serve (m : RpcManager H) (valueToString : Json → String)
    {i : ℕ} {ev : Event} {s : Service H} (b : ServiceAct)
    (ht : w.tasks[i]? = some ⟨ev, .serving s⟩) (j : ℕ) :
    servedAt (step m valueToString w (.serve i b)) j =
      if j = i then served ⟨ev, .serving (s.next b).1⟩ else servedAt w j := by
  rw [step_serve ht, servedAt]
  by_cases hij : j = i
  · subst hij
    rw [if_pos rfl]
    show (setPhase w.tasks j _)[j]?.bind served = _
    rw [getElem?_setPhase_self ht]
    rfl
  · rw [if_neg hij, servedAt]
    show (setPhase w.tasks i _)[j]?.bind served = _
    rw [setPhase, List.getElem?_modify]
    cases w.tasks[j]? with
    | none => rfl
    | some t => simp [Ne.symm hij]

/-- A step of a handler's task that changes neither what it serves nor the map. -/
theorem exact_of_same {w' : RpcState H} (hinflight : w'.inflight = w.inflight)
    (hserved : ∀ j, servedAt w' j = servedAt w j) : Exact w' ↔ Exact w := by
  rw [Exact, Exact, hinflight]
  simp only [hserved]

theorem exact_serve_same {i : ℕ} {ev : Event} {s : Service H} {b : ServiceAct}
    (ht : w.tasks[i]? = some ⟨ev, .serving s⟩)
    (hserved : served ⟨ev, .serving (s.next b).1⟩ = served ⟨ev, .serving s⟩)
    (hinflight : s.inflightAfter i w.inflight b = w.inflight) :
    Exact (step m valueToString w (.serve i b)) ↔ Exact w := by
  refine exact_of_same ?_ fun j => ?_
  · rw [step_serve ht]
    exact hinflight
  · rw [servedAt_serve m valueToString b ht]
    by_cases hij : j = i
    · subst hij
      rw [if_pos rfl, hserved, servedAt_of_getElem? ht]
    · rw [if_neg hij]

/-- A handler that is called is put in. -/
theorem exact_track {i : ℕ} {ev : Event} {ctx : RpcContext H} (h : Exact w)
    (ht : w.tasks[i]? = some ⟨ev, .serving ⟨ctx, .accepted⟩⟩) :
    Exact (step m valueToString w (.serve i .track)) := by
  cases hid : ctx.request.requestMessageId with
  | none =>
    refine (exact_serve_same ht ?_ ?_).mpr h
    · exact hid
    · simp only [Service.inflightAfter, hid]
  | some id =>
    have hi : servedAt w i = none := servedAt_of_getElem? ht
    have hserved := servedAt_serve m valueToString .track ht
    have hnew : served ⟨ev, .serving (Service.next ⟨ctx, .accepted⟩ .track).1⟩ = some id := hid
    intro id'
    rw [show (step m valueToString w (.serve i .track)).inflight = w.inflight.insert id i by
      rw [step_serve ht]
      simp only [Service.inflightAfter, hid]]
    simp only [hserved, hnew]
    by_cases hne : id' = id
    · subst hne
      exact iff_of_true ⟨i, IndexMap.get?_insert_self ..⟩ ⟨i, if_pos rfl⟩
    · rw [IndexMap.get?_insert_of_ne i hne, h id']
      refine exists_congr fun j => ?_
      by_cases hij : j = i
      · subst hij
        rw [if_pos rfl, hi]
        exact iff_of_false (by simp) (fun heq => hne (Option.some.inj heq).symm)
      · rw [if_neg hij]

/-- A handler that is taken out leaves its message to nobody. -/
theorem exact_untrack_iff {i : ℕ} {ev : Event} {ctx : RpcContext H}
    {result : Except RpcError Json} {id : ℕ} (h : Exact w)
    (ht : w.tasks[i]? = some ⟨ev, .serving ⟨ctx, .returned result⟩⟩)
    (hid : ctx.request.requestMessageId = some id) :
    Exact (step m valueToString w (.serve i .untrack)) ↔
      ∀ j, servedAt w j = some id → j = i := by
  have hi : servedAt w i = some id := (servedAt_of_getElem? ht).trans hid
  have hserved := servedAt_serve m valueToString .untrack ht
  have hnew : served ⟨ev, .serving (Service.next ⟨ctx, .returned result⟩ .untrack).1⟩ = none := rfl
  rw [Exact, show (step m valueToString w (.serve i .untrack)).inflight =
      w.inflight.swapRemove id by
    rw [step_serve ht]
    simp only [Service.inflightAfter, hid]]
  simp only [hserved, hnew]
  constructor
  · intro hexact j hj
    by_contra hij
    obtain ⟨target, htarget⟩ := (hexact id).mpr ⟨j, by rw [if_neg hij]; exact hj⟩
    rw [IndexMap.get?_swapRemove_self] at htarget
    cases htarget
  · intro honly id'
    by_cases hne : id' = id
    · subst hne
      refine iff_of_false ?_ ?_
      · rintro ⟨target, htarget⟩
        rw [IndexMap.get?_swapRemove_self] at htarget
        cases htarget
      · rintro ⟨j, hj⟩
        by_cases hij : j = i
        · rw [if_pos hij] at hj
          cases hj
        · rw [if_neg hij] at hj
          exact hij (honly j hj)
    · rw [IndexMap.get?_swapRemove_of_ne hne, h id']
      refine exists_congr fun j => ?_
      by_cases hij : j = i
      · subst hij
        rw [if_pos rfl, hi]
        exact iff_of_false (fun heq => hne (Option.some.inj heq).symm) (by simp)
      · rw [if_neg hij]

/-- A handler that panics leaves its entry to another one. -/
theorem exact_panics_iff {i : ℕ} {ev : Event} {ctx : RpcContext H} {id : ℕ} (h : Exact w)
    (ht : w.tasks[i]? = some ⟨ev, .serving ⟨ctx, .running⟩⟩)
    (hid : ctx.request.requestMessageId = some id) :
    Exact (step m valueToString w (.serve i .panics)) ↔
      ∃ j, j ≠ i ∧ servedAt w j = some id := by
  have hi : servedAt w i = some id := (servedAt_of_getElem? ht).trans hid
  have hserved := servedAt_serve m valueToString .panics ht
  have hnew : served ⟨ev, .serving (Service.next ⟨ctx, .running⟩ .panics).1⟩ = none := rfl
  rw [Exact, show (step m valueToString w (.serve i .panics)).inflight = w.inflight by
    rw [step_serve ht]
    rfl]
  simp only [hserved, hnew]
  constructor
  · intro hexact
    obtain ⟨j, hj⟩ := (hexact id).mp ((h id).mpr ⟨i, hi⟩)
    by_cases hij : j = i
    · rw [if_pos hij] at hj
      cases hj
    · rw [if_neg hij] at hj
      exact ⟨j, hij, hj⟩
  · rintro ⟨j, hij, hj⟩ id'
    rw [h id']
    by_cases hne : id' = id
    · subst hne
      exact iff_of_true ⟨i, hi⟩ ⟨j, by rw [if_neg hij]; exact hj⟩
    · refine exists_congr fun k => ?_
      by_cases hik : k = i
      · subst hik
        rw [if_pos rfl, hi]
        exact iff_of_false (fun heq => hne (Option.some.inj heq).symm) (by simp)
      · rw [if_neg hik]

/-- The other steps of a handler's task. -/
theorem exact_serve_other {i : ℕ} {ev : Event} {s : Service H} {b : ServiceAct} (h : Exact w)
    (ht : w.tasks[i]? = some ⟨ev, .serving s⟩) (htrack : b = .track → s.stage ≠ .accepted)
    (huntrack : b = .untrack → ∀ result, s.stage ≠ .returned result)
    (hpanics : b = .panics → s.stage ≠ .running) :
    Exact (step m valueToString w (.serve i b)) := by
  obtain ⟨ctx, stage⟩ := s
  cases b with
  | track =>
    cases stage with
    | accepted => exact absurd rfl (htrack rfl)
    | _ => exact (exact_serve_same ht rfl rfl).mpr h
  | untrack =>
    cases stage with
    | returned result => exact absurd rfl (huntrack rfl result)
    | _ => exact (exact_serve_same ht rfl rfl).mpr h
  | panics =>
    cases stage with
    | running => exact absurd rfl (hpanics rfl)
    | _ => exact (exact_serve_same ht rfl rfl).mpr h
  | report r => cases stage <;> exact (exact_serve_same ht rfl rfl).mpr h
  | returns result => cases stage <;> exact (exact_serve_same ht rfl rfl).mpr h
  | checkResponse =>
    cases stage with
    | untracked result => cases result <;> exact (exact_serve_same ht rfl rfl).mpr h
    | _ => exact (exact_serve_same ht rfl rfl).mpr h
  | checkFailure => cases stage <;> exact (exact_serve_same ht rfl rfl).mpr h
  | drop => cases stage <;> exact (exact_serve_same ht rfl rfl).mpr h

theorem next_request (s : Service H) (b : ServiceAct) :
    (s.next b).1.ctx.request = s.ctx.request := by
  obtain ⟨ctx, stage⟩ := s
  cases b with
  | checkResponse =>
    cases stage with
    | untracked result => cases result <;> rfl
    | _ => rfl
  | _ => cases stage <;> rfl

theorem served_of_no_id {ev : Event} {s : Service H}
    (hid : s.ctx.request.requestMessageId = none) : served ⟨ev, .serving s⟩ = none := by
  obtain ⟨ctx, stage⟩ := s
  cases stage with
  | running => exact hid
  | returned result => exact hid
  | _ => rfl

/-- A request without a message id is in no map. -/
theorem exact_serve_of_no_id {i : ℕ} {ev : Event} {s : Service H} {b : ServiceAct} (h : Exact w)
    (ht : w.tasks[i]? = some ⟨ev, .serving s⟩)
    (hid : s.ctx.request.requestMessageId = none) :
    Exact (step m valueToString w (.serve i b)) := by
  refine (exact_serve_same ht ?_ ?_).mpr h
  · rw [served_of_no_id hid, served_of_no_id ((congrArg _ (next_request s b)).trans hid)]
  · obtain ⟨ctx, stage⟩ := s
    have hid' : ctx.request.requestMessageId = none := hid
    cases b with
    | track => cases stage <;> simp only [Service.inflightAfter, hid']
    | untrack => cases stage <;> simp only [Service.inflightAfter, hid']
    | _ => rfl

theorem leavesExact_untrack_iff {i : ℕ} {ev : Event} {ctx : RpcContext H}
    {result : Except RpcError Json} {id : ℕ}
    (ht : w.tasks[i]? = some ⟨ev, .serving ⟨ctx, .returned result⟩⟩)
    (hid : ctx.request.requestMessageId = some id) :
    LeavesExact w (.serve i .untrack) ↔ ∀ j, servedAt w j = some id → j = i := by
  constructor
  · intro h
    exact h ev ctx result id ht hid
  · intro h ev' ctx' result' id' ht' hid'
    cases ht.symm.trans ht'
    cases hid.symm.trans hid'
    exact h

theorem leavesExact_panics_iff {i : ℕ} {ev : Event} {ctx : RpcContext H} {id : ℕ}
    (ht : w.tasks[i]? = some ⟨ev, .serving ⟨ctx, .running⟩⟩)
    (hid : ctx.request.requestMessageId = some id) :
    LeavesExact w (.serve i .panics) ↔ ∃ j, j ≠ i ∧ servedAt w j = some id := by
  constructor
  · intro h
    exact h ev ctx id ht hid
  · intro h ev' ctx' id' ht' hid'
    cases ht.symm.trans ht'
    cases hid.symm.trans hid'
    exact h

/-- A step of a handler's task, one that takes nobody out, is under no condition. -/
theorem leavesExact_serve {i : ℕ} {b : ServiceAct}
    (h : ∀ ev ctx stage id, w.tasks[i]? = some ⟨ev, .serving ⟨ctx, stage⟩⟩ →
      ctx.request.requestMessageId = some id →
        ¬ (b = .untrack ∧ ∃ result, stage = .returned result) ∧
          ¬ (b = .panics ∧ stage = .running)) :
    LeavesExact w (.serve i b) := by
  cases b with
  | untrack =>
    intro ev ctx result id ht hid
    exact absurd ⟨rfl, result, rfl⟩ (h ev ctx _ id ht hid).1
  | panics =>
    intro ev ctx id ht hid
    exact absurd ⟨rfl, rfl⟩ (h ev ctx _ id ht hid).2
  | _ => trivial

theorem exact_serve_iff (h : Exact w) (i : ℕ) (b : ServiceAct) :
    Exact (step m valueToString w (.serve i b)) ↔ LeavesExact w (.serve i b) := by
  by_cases hserving : ∃ ev s, w.tasks[i]? = some ⟨ev, .serving s⟩
  · obtain ⟨ev, ⟨ctx, stage⟩, ht⟩ := hserving
    cases hid : ctx.request.requestMessageId with
    | none =>
      refine iff_of_true (exact_serve_of_no_id h ht hid) (leavesExact_serve ?_)
      intro ev' ctx' stage' id' ht' hid'
      cases ht.symm.trans ht'
      cases hid.symm.trans hid'
    | some id =>
      by_cases hout : b = .untrack ∧ ∃ result, stage = .returned result
      · obtain ⟨rfl, result, rfl⟩ := hout
        exact (exact_untrack_iff h ht hid).trans (leavesExact_untrack_iff ht hid).symm
      · by_cases hpanic : b = .panics ∧ stage = .running
        · obtain ⟨rfl, rfl⟩ := hpanic
          exact (exact_panics_iff h ht hid).trans (leavesExact_panics_iff ht hid).symm
        · refine iff_of_true ?_ (leavesExact_serve ?_)
          · by_cases hin : b = .track ∧ stage = .accepted
            · obtain ⟨rfl, rfl⟩ := hin
              exact exact_track h ht
            · exact exact_serve_other h ht (fun hb hs => hin ⟨hb, hs⟩)
                (fun hb result hs => hout ⟨hb, result, hs⟩) (fun hb hs => hpanic ⟨hb, hs⟩)
          · intro ev' ctx' stage' id' ht' hid'
            cases ht.symm.trans ht'
            exact ⟨hout, hpanic⟩
  · rw [step_serve_of_ne fun ev s ht => hserving ⟨ev, s, ht⟩]
    exact iff_of_true h (leavesExact_serve fun ev ctx stage id ht _ => absurd ⟨ev, _, ht⟩ hserving)

/-- **One step.** -/
theorem exact_step_iff (h : Exact w) (a : RpcAct) :
    Exact (step m valueToString w a) ↔ LeavesExact w a := by
  have hother : (∀ i b, a ≠ .serve i b) → Exact (step m valueToString w a) := by
    intro hne
    obtain ⟨hinflight, hserved⟩ := servedAt_step m valueToString hne
    exact (exact_of_same hinflight hserved).mpr h
  cases a with
  | serve i b => exact exact_serve_iff h i b
  | handle u now => exact iff_of_true (hother (by intro i b hab; cases hab)) trivial
  | mark u => exact iff_of_true (hother (by intro i b hab; cases hab)) trivial
  | resolve u => exact iff_of_true (hother (by intro i b hab; cases hab)) trivial
  | issue n => exact iff_of_true (hother (by intro i b hab; cases hab)) trivial
  | call c a => exact iff_of_true (hother (by intro i b hab; cases hab)) trivial

theorem exact_init (events : List Event) (calls : ℕ) : Exact (init H events calls) := by
  intro id
  refine iff_of_false ?_ ?_
  · rintro ⟨target, htarget⟩
    rw [init, IndexMap.get?_empty] at htarget
    cases htarget
  · rintro ⟨i, hi⟩
    obtain ⟨t, ht, hserved⟩ := Option.bind_eq_some_iff.mp hi
    rw [init, List.getElem?_map] at ht
    obtain ⟨ev, -, rfl⟩ := Option.map_eq_some_iff.mp ht
    cases hserved

end Step

/-! ## Cancellations -/

section Cancel
variable {w : RpcState H} {i u : ℕ}

theorem cancelledAt_step (h : CancelledAt w i) (a : RpcAct) :
    CancelledAt (step m valueToString w a) i := by
  obtain ⟨ev, s, hi, hcancelled⟩ := h
  obtain ⟨s', hi', hkept⟩ := serving_step m valueToString hi a
  exact ⟨ev, s', hi', hkept hcancelled⟩

/-- A context is cancelled, or about to be by this update. -/
def Reached (w : RpcState H) (u i : ℕ) : Prop :=
  CancelledAt w i ∨ ∃ ev status, w.tasks[u]? = some ⟨ev, .marking i status⟩ ∧
    ∃ ev' s, w.tasks[i]? = some ⟨ev', .serving s⟩

theorem reached_step (h : Reached w u i) (a : RpcAct) :
    Reached (step m valueToString w a) u i := by
  rcases h with hcancelled | ⟨ev, status, hu, ev', s, hi⟩
  · exact .inl (cancelledAt_step hcancelled a)
  · by_cases ha : a = .mark u
    · subst ha
      exact .inl ⟨ev', _, getElem?_mark_target hu hi, s.ctx.isCancelled_markCancelled status⟩
    · obtain ⟨s', hi', -⟩ := serving_step m valueToString hi a
      exact .inr ⟨ev, status, marking_step hu ha, ev', s', hi'⟩

theorem servedAt_eq_some {id : ℕ} (h : servedAt w i = some id) :
    ∃ ev s, w.tasks[i]? = some ⟨ev, .serving s⟩ := by
  obtain ⟨⟨ev, phase⟩, ht, hserved⟩ := Option.bind_eq_some_iff.mp h
  cases phase with
  | serving s => exact ⟨ev, s, ht⟩
  | _ => cases hserved

theorem reached_handle {ev : Event} {id : ℕ} {now : ℤ}
    (hu : w.tasks[u]? = some ⟨ev, .start⟩) (hcancels : Cancels ev id)
    (hi : servedAt w i = some id) (hfinds : FindsAll w (.handle u now)) :
    Reached (step m valueToString w (.handle u now)) u i := by
  by_cases hcancelled : CancelledAt w i
  · exact .inl (cancelledAt_step hcancelled _)
  · obtain ⟨status, hphase⟩ := handleEvent_of_cancels m valueToString
      now hcancels (hfinds ev id i hu hcancels hi hcancelled)
    obtain ⟨ev', s, hserving⟩ := servedAt_eq_some hi
    obtain ⟨s', hi', -⟩ :=
      serving_step m valueToString hserving (.handle u now)
    refine .inr ⟨ev, status, ?_, ev', s', hi'⟩
    rw [step_handle hu]
    show (setPhase w.tasks u (handleEvent m valueToString w.inflight now ev))[u]? = _
    rw [getElem?_setPhase_self hu, hphase]

end Cancel

/-! ## The run -/

/-- **Exactly when tracking is exact**, and when a cancellation reaches every handler.  In
every state of a run the map has exactly the messages being served, if and only if every
handler taken out leaves nobody else with its message and every one that panics leaves
somebody; and the cancelling updates of a run cancel every handler that runs when they come,
if each finds the only one that is not cancelled already. -/
theorem inflight_exact_iff (m : RpcManager H) (valueToString : Json → String)
    (events : List Event) (calls : ℕ) (as : List RpcAct) :
    ((∀ pre, pre <+: as → Exact (exec (step m valueToString) (init H events calls) pre)) ↔
      ∀ pre a, pre ++ [a] <+: as →
        LeavesExact (exec (step m valueToString) (init H events calls) pre) a) ∧
    ((∀ pre a, pre ++ [a] <+: as →
        FindsAll (exec (step m valueToString) (init H events calls) pre) a) →
      CancelsAll m valueToString (init H events calls) as) := by
  constructor
  · refine forall_prefix_iff (P := fun pre =>
      Exact (exec (step m valueToString) (init H events calls) pre)) (exact_init events calls) ?_
    intro pre a _ hexact
    rw [exec_concat]
    exact exact_step_iff hexact a
  · intro hfinds pre u now mid ev id i hpre hu hcancels hi hdone
    have hhandle : pre ++ [.handle u now] <+: as := by
      refine List.IsPrefix.trans ⟨mid, ?_⟩ hpre
      rw [List.append_assoc, List.singleton_append]
    have hreached : Reached (exec (step m valueToString) (init H events calls)
        (pre ++ .handle u now :: mid)) u i := by
      rw [exec_append, exec_cons]
      refine exec_invariant _ (I := fun w => Reached w u i)
        (reached_handle hu hcancels hi (hfinds pre _ hhandle)) fun w hw a _ => reached_step hw a
    rcases hreached with hcancelled | ⟨ev', status, hmarking, -⟩
    · exact hcancelled
    · cases hdone.symm.trans hmarking

/-! ## Entries left behind, and handlers without one -/

/-- The command delivered twice, and its cancellation. -/
def twiceRun (as : List RpcAct) : RpcState Unit :=
  exec (step slowManager fun _ => "") (init Unit [slowRequest, slowRequest, slowCancel] 0) as

/-- The handler panics. -/
def panicked : List RpcAct := [.handle 0 0, .serve 0 .track, .serve 0 .panics]

/-- The second delivery is served while the first is. -/
def overlapping : List RpcAct :=
  [.handle 0 0, .handle 1 0, .serve 0 .track, .serve 1 .track]

/-- The first of two overlapping handlers is through. -/
def overtaken : List RpcAct :=
  overlapping ++ [.serve 0 (.returns (.ok .null)), .serve 0 .untrack]

/-- The cancellation comes while two handlers run. -/
def cancelledOnce : List RpcAct := overlapping ++ [.handle 2 0, .mark 2]

/-- A panic leaves an entry without a handler, the first of two handlers to finish leaves the
other without an entry, and a cancellation reaches only the later one. -/
theorem tracking_not_exact :
    (¬ Exact (twiceRun panicked)) ∧ (¬ Exact (twiceRun overtaken)) ∧
      servedAt (twiceRun overlapping) 0 = some 42 ∧
      ¬ CancelsAll slowManager (fun _ => "") (init Unit [slowRequest, slowRequest, slowCancel] 0)
        cancelledOnce := by
  refine ⟨fun h => ?_, fun h => ?_, rfl, fun h => ?_⟩
  · obtain ⟨i, hi⟩ := (h 42).mp ⟨0, rfl⟩
    rcases i with _ | _ | _ | i <;> cases hi
  · obtain ⟨target, htarget⟩ := (h 42).mpr ⟨1, rfl⟩
    cases htarget
  · have hcancels : Cancels slowCancel 42 := ⟨rfl, _, _, rfl, rfl⟩
    obtain ⟨ev, s, hs, hcancelled⟩ :=
      h overlapping 2 0 [.mark 2] slowCancel 42 0 List.prefix_rfl rfl hcancels rfl rfl
    cases hs
    cases hcancelled

end RpcInflight
end Doover
