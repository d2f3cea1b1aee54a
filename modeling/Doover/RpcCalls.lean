import Doover.RpcTasks

/-! # Responses to calls

A call learns the id of its message when `create_message` returns, and only then
registers for the response.  A terminal update is taken to the call that is registered
under its id, and dropped when there is none.

A terminal update delivered while a call is open, from when the agent has created the
message until the call gives up, is on its way to it as long as its task has not
resolved it (`Reaches`).  It arrives if it is not resolved before the call has
registered, is not taken for the withdrawal of a command under the same id that is
being served, and is not overtaken by the timeout; these are the conditions on steps of
`Meets`.  Under them, a call to which a response was delivered never times out and
returns one that was delivered (`call_returns_delivered`).
-/

namespace Doover
namespace RpcCalls
open Json RpcState StepRuns
variable {H : Type} {m : RpcManager H} {valueToString : Json → String}

/-- The event is a terminal update of message `id`, with this outcome. -/
def Terminal (valueToString : Json → String) (ev : Event) (id : ℕ) (result : Except RpcError Json) :
    Prop :=
  ev.isMessageUpdate = true ∧
    ∃ data status, statusOf ev = some (id, data, status) ∧
      responseOutcome valueToString data status = some result

/-- The agent has created the call's message, and the call has not given up. -/
def Open (id : ℕ) : CallPhase → Prop
  | .created i | .waiting i _ => i = id
  | _ => False

/-- What was sent to the call. -/
def outcome : CallPhase → Option (Except RpcError Json)
  | .waiting _ slot => slot
  | .received _ result | .returned _ result => some result
  | _ => none

/-- The step delivers a response to call `c`, which is open. -/
def DeliveredAt (valueToString : Json → String) (w : RpcState H) (a : RpcAct) (c : ℕ)
    (result : Except RpcError Json) : Prop :=
  ∃ i now ev id ph, a = .handle i now ∧ w.tasks[i]? = some ⟨ev, .start⟩ ∧
    Terminal valueToString ev id result ∧ w.calls[c]? = some ph ∧ Open id ph

/-- A response was delivered to call `c` in the run from `w`, while the call was open. -/
def Delivered (m : RpcManager H) (valueToString : Json → String) (w : RpcState H) (as : List RpcAct)
    (c : ℕ) (result : Except RpcError Json) : Prop :=
  ∃ bs a cs, as = bs ++ a :: cs ∧
    DeliveredAt valueToString (exec (step m valueToString) w bs) a c result

/-- The conditions under which a delivered response arrives. -/
def Meets (w : RpcState H) : RpcAct → Prop
  /- a cancelling update of an open call's message is not the withdrawal of a command
  in `inflight` -/
  | .handle i _ =>
    ∀ ev id data status, w.tasks[i]? = some ⟨ev, .start⟩ → statusOf ev = some (id, data, status) →
      statusIsCancelled status = true → (∃ ph ∈ w.calls, Open id ph) → w.inflight.get? id = none
  /- a response is not resolved before its call has registered -/
  | .resolve i =>
    ∀ ev id result, w.tasks[i]? = some ⟨ev, .resolving id result⟩ → .created id ∉ w.calls
  /- a call does not give up while a response to it is being resolved -/
  | .call c .elapse =>
    ∀ ev id result, w.calls[c]? = some (.waiting id none) → ⟨ev, .resolving id result⟩ ∉ w.tasks
  | _ => True

/-! ## The response on its way -/

section Step
variable {w : RpcState H}

theorem delivered_concat {as : List RpcAct} {a : RpcAct} {c : ℕ} {result : Except RpcError Json} :
    Delivered m valueToString w (as ++ [a]) c result ↔
      Delivered m valueToString w as c result ∨
        DeliveredAt valueToString (exec (step m valueToString) w as) a c result := by
  constructor
  · rintro ⟨bs, b, cs, heq, hat⟩
    rcases List.eq_nil_or_concat cs with rfl | ⟨cs', x, rfl⟩
    · obtain ⟨rfl, hb⟩ := List.append_inj' heq rfl
      cases hb
      exact .inr hat
    · rw [List.concat_eq_append, ← List.cons_append, ← List.append_assoc] at heq
      obtain ⟨rfl, -⟩ := List.append_inj' heq rfl
      exact .inl ⟨bs, b, cs', rfl, hat⟩
  · rintro (⟨bs, b, cs, rfl, hat⟩ | hat)
    · exact ⟨bs, b, cs ++ [a], by simp, hat⟩
    · exact ⟨as, a, [], rfl, hat⟩

/-- What holds of calls, waiting entries and tasks in every run, `D c r` being what was
delivered. -/
structure Sound (w : RpcState H) (D : ℕ → Except RpcError Json → Prop) : Prop where
  distinct : ∀ {c c' id : ℕ} {ph ph' : CallPhase}, w.calls[c]? = some ph → w.calls[c']? = some ph' →
    ph.messageId = some id → ph'.messageId = some id → c = c'
  registered : ∀ {c id : ℕ}, w.calls[c]? = some (.waiting id none) → w.pending.get? id = some c
  owner : ∀ {c id : ℕ}, w.pending.get? id = some c →
    ∃ ph, w.calls[c]? = some ph ∧ ph.messageId = some id
  started : ∀ {ev : Event} {id : ℕ} {r : Except RpcError Json},
    ⟨ev, .resolving id r⟩ ∈ w.tasks → ev.messageId = some id
  resolving : ∀ {ev : Event} {id c : ℕ} {r : Except RpcError Json} {ph : CallPhase},
    ⟨ev, .resolving id r⟩ ∈ w.tasks → w.calls[c]? = some ph → Open id ph → D c r
  sent : ∀ {c : ℕ} {ph : CallPhase} {r : Except RpcError Json},
    w.calls[c]? = some ph → outcome ph = some r → D c r

/-- The call has its response, or one is on its way to it. -/
def Reaches (w : RpcState H) (ph : CallPhase) : Prop :=
  (outcome ph).isSome = true ∨
    ∃ id ev r, (ph = .created id ∨ ph = .waiting id none) ∧ ⟨ev, .resolving id r⟩ ∈ w.tasks

variable {D : ℕ → Except RpcError Json → Prop} {a : RpcAct}

/-! ### What is sound stays so -/

/-- The tasks move on, and what they newly take to a call was delivered to it. -/
theorem Sound.of_tasks {D' : ℕ → Except RpcError Json → Prop} {tasks : List (RpcTask H)}
    (h : Sound w D) (hD : ∀ c r, D c r → D' c r)
    (htasks : ∀ {ev : Event} {id : ℕ} {r : Except RpcError Json}, ⟨ev, .resolving id r⟩ ∈ tasks →
      ⟨ev, .resolving id r⟩ ∈ w.tasks ∨ ev.messageId = some id ∧
        ∀ c ph, w.calls[c]? = some ph → Open id ph → D' c r)
    (inflight : IndexMap ℕ ℕ) (checked updates : List MessageUpdate) :
    Sound ⟨tasks, w.calls, inflight, w.pending, checked, updates⟩ D' where
  distinct := h.distinct
  registered := h.registered
  owner := h.owner
  started hmem := (htasks hmem).elim h.started And.left
  resolving hmem hc hopen :=
    (htasks hmem).elim (fun hold => hD _ _ (h.resolving hold hc hopen)) fun hnew =>
      hnew.2 _ _ hc hopen
  sent hc hout := hD _ _ (h.sent hc hout)

/-- One call moves on, keeping its id, and `pending` changes under that id only. -/
theorem Sound.set_call {c : ℕ} {ph ph' : CallPhase} {pending : IndexMap ℕ ℕ} (h : Sound w D)
    (hc : w.calls[c]? = some ph) (hid : ph'.messageId = ph.messageId)
    (hopen : ∀ id, Open id ph' → Open id ph) (hsent : ∀ r, outcome ph' = some r → D c r)
    (hreg : ∀ id, ph' = .waiting id none → pending.get? id = some c)
    (hkeep : ∀ id, ph.messageId ≠ some id → pending.get? id = w.pending.get? id)
    (hown : ∀ id c', ph.messageId = some id → pending.get? id = some c' → c' = c) :
    Sound { w with calls := w.calls.set c ph', pending := pending } D := by
  have hlt : c < w.calls.length := (List.getElem?_eq_some_iff.mp hc).1
  -- every call has the id it had
  have hold : ∀ {c' id : ℕ} {q : CallPhase}, (w.calls.set c ph')[c']? = some q →
      q.messageId = some id → ∃ q', w.calls[c']? = some q' ∧ q'.messageId = some id := by
    intro c' id q hq hqid
    rcases of_getElem?_set hq with ⟨rfl, rfl⟩ | ⟨-, hq'⟩
    · exact ⟨ph, hc, hid ▸ hqid⟩
    · exact ⟨q, hq', hqid⟩
  refine ⟨?_, ?_, ?_, h.started, ?_, ?_⟩
  · intro c₁ c₂ id q₁ q₂ h₁ h₂ hid₁ hid₂
    obtain ⟨p₁, hp₁, hpid₁⟩ := hold h₁ hid₁
    obtain ⟨p₂, hp₂, hpid₂⟩ := hold h₂ hid₂
    exact h.distinct hp₁ hp₂ hpid₁ hpid₂
  · intro c' id hq
    rcases of_getElem?_set hq with ⟨rfl, heq⟩ | ⟨hne, hq'⟩
    · exact hreg id heq.symm
    · have hne' : ph.messageId ≠ some id := fun hph => hne (h.distinct hq' hc rfl hph)
      show pending.get? id = some c'
      rw [hkeep id hne']
      exact h.registered hq'
  · intro c' id hget
    by_cases hph : ph.messageId = some id
    · obtain rfl := hown id c' hph hget
      exact ⟨ph', List.getElem?_set_self hlt, hid.trans hph⟩
    · obtain ⟨q, hq, hqid⟩ := h.owner ((hkeep id hph).symm.trans hget)
      have hne : c' ≠ c := by
        rintro rfl
        exact hph (Option.some.inj (hc.symm.trans hq) ▸ hqid)
      exact ⟨q, (List.getElem?_set_ne (Ne.symm hne)).trans hq, hqid⟩
  · intro ev id c' r q hmem hq hopen'
    rcases of_getElem?_set hq with ⟨rfl, rfl⟩ | ⟨-, hq'⟩
    · exact h.resolving hmem hc (hopen id hopen')
    · exact h.resolving hmem hq' hopen'
  · intro c' q r hq hout
    rcases of_getElem?_set hq with ⟨rfl, rfl⟩ | ⟨-, hq'⟩
    · exact hsent r hout
    · exact h.sent hq' hout

theorem ne_of_fresh {id : ℕ} (hfresh : w.fresh id = true) :
    (∀ ph ∈ w.calls, ph.messageId ≠ some id) ∧
      ∀ ev r, ⟨ev, .resolving id r⟩ ∈ w.tasks → ev.messageId ≠ some id := by
  rw [fresh, Bool.and_eq_true, List.all_eq_true, List.all_eq_true] at hfresh
  obtain ⟨hcalls, htasks⟩ := hfresh
  constructor
  · intro ph hph
    exact bne_iff_ne.mp (hcalls ph hph)
  · intro ev r hmem
    exact bne_iff_ne.mp (htasks _ hmem)

/-- The agent gives the call's message a new id, for which nothing is under way. -/
theorem Sound.created {c id : ℕ} (h : Sound w D) (hc : w.calls[c]? = some .creating)
    (hfresh : w.fresh id = true) :
    Sound { w with calls := w.calls.set c (.created id) } D := by
  obtain ⟨hcalls, htasks⟩ := ne_of_fresh hfresh
  refine ⟨?_, ?_, ?_, h.started, ?_, ?_⟩
  · intro c₁ c₂ i q₁ q₂ h₁ h₂ hid₁ hid₂
    rcases of_getElem?_set h₁ with ⟨rfl, rfl⟩ | ⟨-, h₁'⟩ <;>
      rcases of_getElem?_set h₂ with ⟨rfl, rfl⟩ | ⟨-, h₂'⟩
    · rfl
    · cases hid₁
      exact absurd hid₂ (hcalls q₂ (List.mem_of_getElem? h₂'))
    · cases hid₂
      exact absurd hid₁ (hcalls q₁ (List.mem_of_getElem? h₁'))
    · exact h.distinct h₁' h₂' hid₁ hid₂
  · intro c' i hq
    rcases of_getElem?_set hq with ⟨-, heq⟩ | ⟨-, hq'⟩
    · cases heq
    · exact h.registered hq'
  · intro c' i hget
    obtain ⟨q, hq, hqid⟩ := h.owner hget
    have hne : c' ≠ c := by
      rintro rfl
      cases hc.symm.trans hq
      cases hqid
    exact ⟨q, (List.getElem?_set_ne (Ne.symm hne)).trans hq, hqid⟩
  · intro ev i c' r q hmem hq hopen
    rcases of_getElem?_set hq with ⟨-, rfl⟩ | ⟨-, hq'⟩
    · obtain rfl : id = i := hopen
      exact absurd (h.started hmem) (htasks ev r hmem)
    · exact h.resolving hmem hq' hopen
  · intro c' q r hq hout
    rcases of_getElem?_set hq with ⟨-, rfl⟩ | ⟨-, hq'⟩
    · cases hout
    · exact h.sent hq' hout

theorem sound_stepCall (h : Sound w D) (c : ℕ) (a : CallAct) : Sound (w.stepCall c a) D := by
  have hown : ∀ {ph : CallPhase} (id c' : ℕ), w.calls[c]? = some ph → ph.messageId = some id →
      w.pending.get? id = some c' → c' = c := by
    intro ph id c' hc hid hget
    obtain ⟨q, hq, hqid⟩ := h.owner hget
    exact h.distinct hq hc hqid hid
  unfold stepCall
  split
  · rename_i id hc
    split
    · rename_i hfresh
      exact h.created hc hfresh
    · exact h
  · rename_i e hc
    exact h.set_call hc rfl (fun _ => False.elim) nofun nofun (fun _ _ => rfl)
      fun id c' hid => nomatch hid
  · rename_i id hc
    refine h.set_call hc rfl (fun _ => fun hopen => hopen) nofun ?_ ?_ ?_
    · intro i hi
      cases hi
      exact IndexMap.get?_insert_self ..
    · intro i hi
      have hne : i ≠ id := fun heq => hi (congrArg some heq.symm)
      exact IndexMap.get?_insert_of_ne _ hne
    · intro i c' hi hget
      cases hi
      rw [IndexMap.get?_insert_self] at hget
      exact (Option.some.inj hget).symm
  · rename_i id result hc
    refine h.set_call hc rfl (fun _ => False.elim) ?_ nofun (fun _ _ => rfl) (hown · · hc)
    exact fun r hr => h.sent hc hr
  · rename_i id hc
    exact h.set_call hc rfl (fun _ => False.elim) nofun nofun (fun _ _ => rfl) (hown · · hc)
  · rename_i id result hc
    refine h.set_call hc rfl (fun _ => False.elim) (fun r hr => h.sent hc hr) nofun ?_ ?_
    · intro i hi
      have hne : i ≠ id := fun heq => hi (congrArg some heq.symm)
      exact IndexMap.get?_swapRemove_of_ne hne
    · intro i c' hi hget
      cases hi
      rw [IndexMap.get?_swapRemove_self] at hget
      cases hget
  · rename_i id hc
    refine h.set_call hc rfl (fun _ => False.elim) nofun nofun ?_ ?_
    · intro i hi
      have hne : i ≠ id := fun heq => hi (congrArg some heq.symm)
      exact IndexMap.get?_swapRemove_of_ne hne
    · intro i c' hi hget
      cases hi
      rw [IndexMap.get?_swapRemove_self] at hget
      cases hget
  · exact h

/-- Only a terminal update is taken to a call. -/
theorem terminal_of_handleEvent {inflight : IndexMap ℕ ℕ} {now : ℤ} {ev : Event} {id : ℕ}
    {r : Except RpcError Json}
    (h : handleEvent m valueToString inflight now ev = .resolving id r) :
    Terminal valueToString ev id r := by
  rw [handleEvent] at h
  split at h
  · split at h <;> cases h
  · split at h
    · rename_i hup
      rw [handleResponse] at h
      split at h
      · cases h
      · rename_i id' data status hstatus
        split at h
        · cases h
        · split at h
          · rename_i r' hr
            cases h
            exact ⟨hup, data, status, hstatus, hr⟩
          · cases h
    · cases h

/-- A terminal update is taken to a call, unless it withdraws a command in `inflight`. -/
theorem handleEvent_of_terminal {inflight : IndexMap ℕ ℕ} (now : ℤ) {ev : Event} {id : ℕ}
    {r : Except RpcError Json} (h : Terminal valueToString ev id r)
    (hin : ∀ data status, statusOf ev = some (id, data, status) → statusIsCancelled status = true →
      inflight.get? id = none) :
    handleEvent m valueToString inflight now ev = .resolving id r := by
  obtain ⟨hup, data, status, hstatus, hr⟩ := h
  have hnone : (if statusIsCancelled status then inflight.get? id else none) = none := by
    by_cases hc : statusIsCancelled status = true
    · rw [if_pos hc]
      exact hin data status hstatus hc
    · exact if_neg hc
  rw [handleEvent_of_isMessageUpdate now hup]
  simp only [handleResponse, hstatus, hnone, hr]

theorem send_messageId (r : Except RpcError Json) (ph : CallPhase) :
    (send r ph).messageId = ph.messageId := by
  unfold send
  split <;> rfl

theorem outcome_send {r r' : Except RpcError Json} {ph : CallPhase}
    (h : outcome (send r ph) = some r') :
    outcome ph = some r' ∨ r' = r ∧ ∃ id, ph = .waiting id none := by
  unfold send at h
  split at h
  · rename_i id
    exact .inr ⟨(Option.some.inj h).symm, id, rfl⟩
  · exact .inl h

/-- A task that is set to another phase takes nothing to a call. -/
theorem resolving_of_setPhase {tasks : List (RpcTask H)} {i : ℕ} {phase : Phase H} {e : Event}
    {id : ℕ} {r : Except RpcError Json} (hmem : ⟨e, .resolving id r⟩ ∈ setPhase tasks i phase)
    (hne : ∀ id r, phase ≠ .resolving id r) : ⟨e, .resolving id r⟩ ∈ tasks := by
  rcases mem_modify hmem with hold | ⟨t₀, -, heq⟩
  · exact hold
  · exact absurd (congrArg RpcTask.phase heq).symm (hne id r)

/-- The result goes to the call that is registered for it, if there still is one. -/
theorem sound_resolve {D' : ℕ → Except RpcError Json → Prop} (h : Sound w D)
    (hD : ∀ c r, D c r → D' c r) {i id : ℕ} {ev : Event} {r : Except RpcError Json}
    (ht : w.tasks[i]? = some ⟨ev, .resolving id r⟩) :
    Sound (w.stepTask m valueToString i ⟨ev, .resolving id r⟩ (.resolve i)) D' := by
  have hmem : ⟨ev, .resolving id r⟩ ∈ w.tasks := List.mem_of_getElem? ht
  have hrest : ∀ {ev' : Event} {id' : ℕ} {r' : Except RpcError Json},
      ⟨ev', .resolving id' r'⟩ ∈ setPhase w.tasks i .done → ⟨ev', .resolving id' r'⟩ ∈ w.tasks :=
    fun hmem => resolving_of_setPhase hmem fun _ _ => by simp
  have hdone := h.of_tasks hD (fun hmem => .inl (hrest hmem)) w.inflight w.checked w.updates
  cases hp : w.pending.get? id with
  | none =>
    simp only [stepTask, hp]
    exact hdone
  | some c =>
    obtain ⟨ph, hc, hid⟩ := h.owner hp
    simp only [stepTask, hp, modify_of_getElem? hc]
    refine hdone.set_call hc (send_messageId r ph) ?_ ?_ ?_ ?_ ?_
    · intro i' hopen
      unfold send at hopen
      split at hopen <;> exact hopen
    · intro r' hr'
      rcases outcome_send hr' with hold | ⟨rfl, i', rfl⟩
      · exact hD _ _ (h.sent hc hold)
      · exact hD _ _ (h.resolving hmem hc (Option.some.inj hid))
    · intro i' heq
      unfold send at heq
      split at heq
      · cases heq
      · rename_i hnot
        exact absurd heq (hnot i')
    · intro i' hne
      have hne' : i' ≠ id := by
        rintro rfl
        exact hne hid
      exact IndexMap.get?_swapRemove_of_ne hne'
    · intro i' c' hi' hget
      cases hid.symm.trans hi'
      rw [IndexMap.get?_swapRemove_self] at hget
      cases hget

theorem sound_stepTask {D' : ℕ → Except RpcError Json → Prop} (h : Sound w D)
    (hD : ∀ c r, D c r → D' c r) {i : ℕ} {t : RpcTask H} (ht : w.tasks[i]? = some t)
    (hi : a = .mark i ∨ a = .resolve i ∨ (∃ now, a = .handle i now) ∨ ∃ s, a = .serve i s)
    (hnew : ∀ c r, DeliveredAt valueToString w a c r → D' c r) :
    Sound (w.stepTask m valueToString i t a) D' := by
  have hsame : Sound w D' := h.of_tasks hD (fun hmem => .inl hmem) w.inflight w.checked w.updates
  obtain ⟨ev, phase⟩ := t
  rcases hi with rfl | rfl | ⟨now, rfl⟩ | ⟨s, rfl⟩
  · cases phase with
    | marking target status =>
      refine h.of_tasks hD (fun hmem => .inl ?_) _ _ _
      rcases mem_modify hmem with hold | ⟨t₀, ht₀, heq⟩
      · exact resolving_of_setPhase hold fun _ _ => by simp
      · rw [markContext] at heq
        split at heq
        · cases congrArg RpcTask.phase heq
        · have hold := List.mem_of_getElem? ht₀
          rw [← heq] at hold
          exact resolving_of_setPhase hold fun _ _ => by simp
    | _ => exact hsame
  · cases phase with
    | resolving id r => exact sound_resolve h hD ht
    | _ => exact hsame
  · cases phase with
    | start =>
      refine h.of_tasks hD (fun {e id r} hmem => ?_) _ _ _
      rcases mem_modify hmem with hold | ⟨t₀, ht₀, heq⟩
      · exact .inl hold
      · cases ht.symm.trans ht₀
        have hphase := (congrArg RpcTask.phase heq).symm
        obtain rfl : e = ev := congrArg RpcTask.event heq
        have hterminal := terminal_of_handleEvent hphase
        refine .inr ⟨?_, fun c ph hc hopen => ?_⟩
        · obtain ⟨-, data, status, hstatus, -⟩ := hterminal
          exact messageId_of_statusOf hstatus
        · exact hnew c r ⟨i, now, e, id, ph, rfl, ht, hterminal, hc, hopen⟩
    | _ => exact hsame
  · cases phase with
    | serving service =>
      refine h.of_tasks hD (fun hmem => .inl (resolving_of_setPhase hmem fun _ _ => ?_)) _ _ _
      simp
    | _ => exact hsame

/-- What is sound stays so, `D'` being what was delivered after the step. -/
theorem sound_step {D' : ℕ → Except RpcError Json → Prop} (h : Sound w D)
    (hD : ∀ c r, D c r → D' c r) (hnew : ∀ c r, DeliveredAt valueToString w a c r → D' c r) :
    Sound (step m valueToString w a) D' := by
  have hsame : Sound w D' := h.of_tasks hD (fun hmem => .inl hmem) w.inflight w.checked w.updates
  cases a with
  | issue n =>
    rw [step]
    split
    · exact hsame.of_tasks (fun _ _ hd => hd) (fun hmem => .inl hmem) _ _ _
    · exact hsame
  | call c a => exact sound_stepCall hsame c a
  | mark i | resolve i | handle i now | serve i s =>
    rw [step]
    split
    · rename_i t ht
      exact sound_stepTask h hD ht (by simp) hnew
    · exact hsame

/-! ### What is on its way stays so, or arrives -/

theorem Reaches.of_tasks {w' : RpcState H} {ph : CallPhase} (h : Reaches w ph)
    (htasks : ∀ ev id r, ⟨ev, .resolving id r⟩ ∈ w.tasks → ⟨ev, .resolving id r⟩ ∈ w'.tasks) :
    Reaches w' ph :=
  h.imp_right fun ⟨id, ev, r, hph, hmem⟩ => ⟨id, ev, r, hph, htasks ev id r hmem⟩

theorem not_reaches {ph : CallPhase} (hout : outcome ph = none)
    (hph : ∀ id, ph ≠ .created id ∧ ph ≠ .waiting id none) : ¬ Reaches w ph := by
  rintro (hsome | ⟨id, -, -, rfl | rfl, -⟩)
  · rw [hout] at hsome
    cases hsome
  · exact (hph id).1 rfl
  · exact (hph id).2 rfl

theorem reaches_stepCall {c c₀ : ℕ} {ph : CallPhase} {a : CallAct} (hc : w.calls[c]? = some ph)
    (h : Reaches w ph) (hm : Meets w (.call c₀ a)) :
    ∃ ph', (w.stepCall c₀ a).calls[c]? = some ph' ∧ Reaches (w.stepCall c₀ a) ph' := by
  obtain ⟨htasks, -⟩ := stepCall_frame w c₀ a
  have hreach : ∀ ph', Reaches w ph' → Reaches (w.stepCall c₀ a) ph' :=
    fun ph' h' => h'.of_tasks fun _ _ _ hmem => htasks ▸ hmem
  by_cases hcc : c₀ = c
  · subst hcc
    have hset : ∀ ph' : CallPhase, (w.calls.set c₀ ph')[c₀]? = some ph' := fun ph' =>
      List.getElem?_set_self (List.getElem?_eq_some_iff.mp hc).1
    unfold stepCall at hreach ⊢
    split
    · rename_i id hc'
      cases hc.symm.trans hc'
      exact absurd h (not_reaches rfl fun _ => ⟨nofun, nofun⟩)
    · rename_i e hc'
      cases hc.symm.trans hc'
      exact absurd h (not_reaches rfl fun _ => ⟨nofun, nofun⟩)
    · rename_i id hc'
      cases hc.symm.trans hc'
      refine ⟨_, hset _, ?_⟩
      rcases h with hsome | ⟨i, ev, r, heq, hmem⟩
      · cases hsome
      · obtain rfl : id = i := by
          rcases heq with heq | heq <;> cases heq
          rfl
        exact .inr ⟨id, ev, r, .inr rfl, hmem⟩
    · exact ⟨_, hset _, .inl rfl⟩
    · rename_i id hc'
      cases hc.symm.trans hc'
      rcases h with hsome | ⟨i, ev, r, heq, hmem⟩
      · cases hsome
      · obtain rfl : id = i := by
          rcases heq with heq | heq <;> cases heq
          rfl
        exact absurd hmem (hm ev id r hc)
    · exact ⟨_, hset _, .inl rfl⟩
    · rename_i id hc'
      cases hc.symm.trans hc'
      exact absurd h (not_reaches rfl fun _ => ⟨nofun, nofun⟩)
    · exact ⟨ph, hc, h⟩
  · refine ⟨ph, ?_, hreach ph h⟩
    unfold stepCall
    split
    · split
      · exact (List.getElem?_set_ne hcc).trans hc
      · exact hc
    all_goals first | exact (List.getElem?_set_ne hcc).trans hc | exact hc

theorem reaches_stepTask (hs : Sound w D) {i c : ℕ} {t : RpcTask H} (ht : w.tasks[i]? = some t)
    (hi : a = .mark i ∨ a = .resolve i ∨ (∃ now, a = .handle i now) ∨ ∃ s, a = .serve i s)
    {ph : CallPhase} (hc : w.calls[c]? = some ph) (h : Reaches w ph) (hm : Meets w a) :
    ∃ ph', (w.stepTask m valueToString i t a).calls[c]? = some ph' ∧
      Reaches (w.stepTask m valueToString i t a) ph' := by
  obtain ⟨ev, phase⟩ := t
  -- a response on its way is not resolved by a step of another task
  have hset : ∀ (phase' : Phase H) (e : Event) (id : ℕ) (r : Except RpcError Json),
      phase ≠ .resolving id r → ⟨e, .resolving id r⟩ ∈ w.tasks →
      ⟨e, .resolving id r⟩ ∈ setPhase w.tasks i phase' := by
    intro phase' e id r hne hmem
    refine mem_modify_of_mem hmem fun hi' => absurd ?_ hne
    exact congrArg RpcTask.phase (Option.some.inj (ht.symm.trans hi'))
  rcases hi with rfl | rfl | ⟨now, rfl⟩ | ⟨s, rfl⟩
  · cases phase with
    | marking target status =>
      refine ⟨ph, hc, h.of_tasks fun e id r hmem => ?_⟩
      exact mem_modify_of_mem (hset .done e id r (by simp) hmem) fun _ => rfl
    | _ => exact ⟨ph, hc, h⟩
  · cases phase with
    | resolving id r =>
      -- the call this response is for has registered
      have hcreated : .created id ∉ w.calls := hm ev id r ht
      have hwaiting : ∀ id' : ℕ, ph = .created id' ∨ ph = .waiting id' none → id' = id →
          w.pending.get? id = some c := by
        rintro id' (rfl | rfl) rfl
        · exact absurd (List.mem_of_getElem? hc) hcreated
        · exact hs.registered hc
      have hother : ∀ id' : ℕ, id' ≠ id → ∀ (e : Event) (r' : Except RpcError Json),
          ⟨e, .resolving id' r'⟩ ∈ w.tasks → ⟨e, .resolving id' r'⟩ ∈ setPhase w.tasks i .done := by
        intro id' hne e r' hmem
        refine hset .done e id' r' (fun heq => hne ?_) hmem
        cases heq
        rfl
      cases hp : w.pending.get? id with
      | none =>
        simp only [stepTask, hp]
        refine ⟨ph, hc, ?_⟩
        rcases h with hsome | ⟨id', e, r', hph, hmem⟩
        · exact .inl hsome
        · have hne : id' ≠ id := by
            intro heq
            cases (hwaiting id' hph heq).symm.trans hp
          exact .inr ⟨id', e, r', hph, hother id' hne e r' hmem⟩
      | some c₀ =>
        obtain ⟨ph₀, hc₀, hid₀⟩ := hs.owner hp
        simp only [stepTask, hp, modify_of_getElem? hc₀]
        by_cases hcc : c₀ = c
        · subst hcc
          obtain rfl : ph = ph₀ := Option.some.inj (hc.symm.trans hc₀)
          refine ⟨send r ph, List.getElem?_set_self (List.getElem?_eq_some_iff.mp hc).1, .inl ?_⟩
          rcases h with hsome | ⟨id', e, r', rfl | rfl, hmem⟩
          · obtain ⟨r', hr'⟩ := Option.isSome_iff_exists.mp hsome
            unfold send
            split
            · rfl
            · exact hsome
          · cases hid₀
            exact absurd (List.mem_of_getElem? hc) hcreated
          · rfl
        · refine ⟨ph, (List.getElem?_set_ne hcc).trans hc, ?_⟩
          rcases h with hsome | ⟨id', e, r', hph, hmem⟩
          · exact .inl hsome
          · have hne : id' ≠ id := by
              intro heq
              exact hcc (Option.some.inj (hp.symm.trans (hwaiting id' hph heq)))
            exact .inr ⟨id', e, r', hph, hother id' hne e r' hmem⟩
    | _ => exact ⟨ph, hc, h⟩
  · cases phase with
    | start => exact ⟨ph, hc, h.of_tasks fun e id r hmem => hset _ e id r (by simp) hmem⟩
    | _ => exact ⟨ph, hc, h⟩
  · cases phase with
    | serving service =>
      exact ⟨ph, hc, h.of_tasks fun e id r hmem => hset _ e id r (by simp) hmem⟩
    | _ => exact ⟨ph, hc, h⟩

/-- **One step.**  Under the conditions, a call that was delivered a response has one, or
has one on its way. -/
theorem reaches_step (hs : Sound w D) (hm : Meets w a)
    (h : ∀ c r, D c r → ∃ ph, w.calls[c]? = some ph ∧ Reaches w ph) {c : ℕ}
    {r : Except RpcError Json} (hd : D c r ∨ DeliveredAt valueToString w a c r) :
    ∃ ph, (step m valueToString w a).calls[c]? = some ph ∧
      Reaches (step m valueToString w a) ph := by
  rcases hd with hold | hnew
  · obtain ⟨ph, hc, hreach⟩ := h c r hold
    cases a with
    | issue n =>
      rw [step]
      split
      · exact ⟨ph, hc, hreach⟩
      · exact ⟨ph, hc, hreach⟩
    | call c₀ a => exact reaches_stepCall hc hreach hm
    | mark i | resolve i | handle i now | serve i s =>
      rw [step]
      split
      · rename_i t ht
        exact reaches_stepTask hs ht (by simp) hc hreach hm
      · exact ⟨ph, hc, hreach⟩
  · obtain ⟨i, now, ev, id, ph, rfl, ht, hterminal, hc, hopen⟩ := hnew
    have hphase : handleEvent m valueToString w.inflight now ev = .resolving id r := by
      refine handleEvent_of_terminal now hterminal fun data status hstatus hcancelled => ?_
      exact hm ev id data status ht hstatus hcancelled ⟨ph, List.mem_of_getElem? hc, hopen⟩
    rw [step_handle ht, hphase]
    refine ⟨ph, hc, ?_⟩
    have hmem := List.mem_of_getElem? (getElem?_setPhase_self ht (.resolving id r : Phase H))
    cases ph with
    | created id' =>
      obtain rfl : id' = id := hopen
      exact .inr ⟨id', ev, r, .inl rfl, hmem⟩
    | waiting id' slot =>
      obtain rfl : id' = id := hopen
      cases slot with
      | none => exact .inr ⟨id', ev, r, .inr rfl, hmem⟩
      | some r' => exact .inl rfl
    | _ => exact hopen.elim

/-! ### A response on its way arrives -/

/-- There is a continuation in which call `c` returns a response. -/
def Returns (m : RpcManager H) (valueToString : Json → String) (w : RpcState H) (c : ℕ) : Prop :=
  ∃ bs id r, (exec (step m valueToString) w bs).calls[c]? = some (.returned id r)

theorem Returns.of_step {c : ℕ} (a : RpcAct)
    (h : Returns m valueToString (step m valueToString w a) c) :
    Returns m valueToString w c := by
  obtain ⟨bs, id, r, hc⟩ := h
  exact ⟨a :: bs, id, r, hc⟩

theorem step_call {c : ℕ} {ph : CallPhase} (hc : w.calls[c]? = some ph) (ph' : CallPhase) :
    (w.calls.set c ph')[c]? = some ph' :=
  List.getElem?_set_self (List.getElem?_eq_some_iff.mp hc).1

theorem returns_of_received {c : ℕ} (id : ℕ) (r : Except RpcError Json)
    (hc : w.calls[c]? = some (.received id r)) : Returns m valueToString w c := by
  refine Returns.of_step (.call c .finish) ⟨[], id, r, ?_⟩
  have hstep : (w.stepCall c .finish).calls = w.calls.set c (.returned id r) := by
    simp only [stepCall, hc]
  exact (congrArg (·[c]?) hstep).trans (step_call hc _)

theorem returns_of_sent {c : ℕ} (id : ℕ) (r : Except RpcError Json)
    (hc : w.calls[c]? = some (.waiting id (some r))) : Returns m valueToString w c := by
  refine Returns.of_step (.call c .receive) (returns_of_received id r ?_)
  have hstep : (w.stepCall c .receive).calls = w.calls.set c (.received id r) := by
    simp only [stepCall, hc]
  exact (congrArg (·[c]?) hstep).trans (step_call hc _)

theorem returns_of_resolving {c id : ℕ} {ev : Event} {r : Except RpcError Json}
    (hc : w.calls[c]? = some (.waiting id none)) (hp : w.pending.get? id = some c)
    (hmem : ⟨ev, .resolving id r⟩ ∈ w.tasks) : Returns m valueToString w c := by
  obtain ⟨i, hi⟩ := List.mem_iff_getElem?.mp hmem
  refine Returns.of_step (.resolve i) (returns_of_sent id r ?_)
  have hstep : (step m valueToString w (.resolve i)).calls =
      w.calls.set c (.waiting id (some r)) := by
    rw [step_resolve hi, hp, Option.elim_some]
    exact modify_of_getElem? hc (send r)
  exact (congrArg (·[c]?) hstep).trans (step_call hc _)

theorem returns_of_reaches (hs : Sound w D) {c : ℕ} {ph : CallPhase}
    (hc : w.calls[c]? = some ph) (h : Reaches w ph) : Returns m valueToString w c := by
  rcases h with hsome | ⟨id, ev, r, rfl | rfl, hmem⟩
  · obtain ⟨r, hr⟩ := Option.isSome_iff_exists.mp hsome
    cases ph with
    | waiting id slot =>
      obtain rfl : slot = some r := hr
      exact returns_of_sent _ _ hc
    | received id r' => exact returns_of_received _ _ hc
    | returned id r' => exact ⟨[], id, r', hc⟩
    | _ => cases hr
  · have hstep : w.stepCall c .register =
        { w with
          calls := w.calls.set c (.waiting id none), pending := w.pending.insert id c } := by
      simp only [stepCall, hc]
    refine Returns.of_step (.call c .register) ?_
    rw [step, hstep]
    exact returns_of_resolving (step_call hc _) (IndexMap.get?_insert_self ..) hmem
  · exact returns_of_resolving hc (hs.registered hc) hmem

end Step

/-! ## The run -/

section Run
variable {events : List Event} {calls : ℕ} {as : List RpcAct}

theorem sound_init (events : List Event) (calls : ℕ) :
    Sound (init H events calls) fun _ _ => False := by
  have hcreating : ∀ {c : ℕ} {ph : CallPhase}, (init H events calls).calls[c]? = some ph →
      ph = .creating := fun hc => List.eq_of_mem_replicate (List.mem_of_getElem? hc)
  have hstart : ∀ {ev : Event} {phase : Phase H}, ⟨ev, phase⟩ ∈ (init H events calls).tasks →
      phase = .start := by
    intro ev phase hmem
    obtain ⟨ev', -, heq⟩ := List.mem_map.mp hmem
    cases heq
    rfl
  refine ⟨?_, ?_, ?_, ?_, ?_, ?_⟩
  · intro c c' id ph ph' hc _ hid _
    rw [hcreating hc] at hid
    cases hid
  · intro c id hc
    cases hcreating hc
  · intro c id hget
    rw [init, IndexMap.get?_empty] at hget
    cases hget
  · intro ev id r hmem
    cases hstart hmem
  · intro ev id c r ph hmem
    cases hstart hmem
  · intro c ph r hc hout
    rw [hcreating hc] at hout
    cases hout

theorem sound_exec (m : RpcManager H) (valueToString : Json → String) (events : List Event)
    (calls : ℕ) (as : List RpcAct) :
    Sound (exec (step m valueToString) (init H events calls) as)
      (Delivered m valueToString (init H events calls) as) := by
  induction as using List.reverseRecOn with
  | nil =>
    refine (sound_init events calls).of_tasks (fun _ _ => False.elim) (fun hmem => .inl hmem) _ _ _
  | append_singleton as a ih =>
    rw [exec_concat]
    refine sound_step ih ?_ ?_
    · exact fun c r hd => delivered_concat.mpr (.inl hd)
    · exact fun c r hd => delivered_concat.mpr (.inr hd)

theorem reaches_exec
    (h : AllSteps (step m valueToString) Meets (init H events calls) as) {c : ℕ}
    {r : Except RpcError Json} (hd : Delivered m valueToString (init H events calls) as c r) :
    ∃ ph, (exec (step m valueToString) (init H events calls) as).calls[c]? = some ph ∧
      Reaches (exec (step m valueToString) (init H events calls) as) ph := by
  revert c r
  refine allSteps_induction _ (P := fun as => ∀ {c : ℕ} {r : Except RpcError Json},
    Delivered m valueToString (init H events calls) as c r →
      ∃ ph, (exec (step m valueToString) (init H events calls) as).calls[c]? = some ph ∧
        Reaches (exec (step m valueToString) (init H events calls) as) ph) ?_ ?_ as h
  · rintro c r ⟨bs, a, cs, heq, -⟩
    exact absurd heq (by simp)
  · intro as a ih hm c r hd
    rw [exec_concat]
    exact reaches_step (sound_exec m valueToString events calls as) hm (fun _ _ hd' => ih hd')
      (delivered_concat.mp hd)

/-- **A delivered response is returned.**  In a run whose steps all meet the conditions,
a call that was delivered a response does not time out, returns nothing but what was
delivered to it, and can return. -/
theorem call_returns_delivered (m : RpcManager H) (valueToString : Json → String)
    (events : List Event) (calls : ℕ) (as : List RpcAct)
    (h : AllSteps (step m valueToString) Meets (init H events calls) as) (c : ℕ)
    (r : Except RpcError Json) (hd : Delivered m valueToString (init H events calls) as c r) :
    let run := exec (step m valueToString) (init H events calls)
    (∀ id, (run as).calls[c]? ≠ some (.elapsed id) ∧ (run as).calls[c]? ≠ some (.timedOut id)) ∧
      (∀ id r', (run as).calls[c]? = some (.returned id r') →
        Delivered m valueToString (init H events calls) as c r') ∧
      ∃ bs id r', (run (as ++ bs)).calls[c]? = some (.returned id r') ∧
        Delivered m valueToString (init H events calls) (as ++ bs) c r' := by
  intro run
  obtain ⟨ph, hc, hreach⟩ := reaches_exec h hd
  refine ⟨fun id => ⟨?_, ?_⟩, ?_, ?_⟩
  · intro helapsed
    cases hc.symm.trans helapsed
    exact absurd hreach (not_reaches rfl fun _ => ⟨nofun, nofun⟩)
  · intro htimedOut
    cases hc.symm.trans htimedOut
    exact absurd hreach (not_reaches rfl fun _ => ⟨nofun, nofun⟩)
  · intro id r' hreturned
    exact (sound_exec m valueToString events calls as).sent hreturned rfl
  · obtain ⟨bs, id, r', hreturned⟩ :=
      returns_of_reaches (sound_exec m valueToString events calls as) hc hreach
    rw [← exec_append] at hreturned
    exact ⟨bs, id, r', hreturned,
      (sound_exec m valueToString events calls (as ++ bs)).sent hreturned rfl⟩

end Run

/-! ## A call and its response -/

/-- A response to message 7. -/
def pong : Event :=
  ⟨Event.MESSAGE_UPDATE, "dv-rpc", Json.ofList [("id", .string "7"), ("data", Json.ofList
    [("status", Json.ofList [("code", .string "success")]), ("response", .string "pong")])]⟩

def pingManager : RpcManager Unit := ⟨none, .empty⟩

/-- One call, and the task of one response. -/
def pingRun (as : List RpcAct) : RpcState Unit :=
  exec (step pingManager fun _ => "") (init Unit [pong] 1) as

/-- The response arrives after the call has registered. -/
theorem registered_call_returns :
    let as : List RpcAct := [.call 0 (.created 7), .call 0 .register, .handle 0 0, .resolve 0]
    ∃ bs id r', (pingRun (as ++ bs)).calls[0]? = some (.returned id r') ∧
      Delivered pingManager (fun _ => "") (init Unit [pong] 1) (as ++ bs) 0 r' := by
  intro as
  have hmeets : AllSteps (step pingManager fun _ => "") Meets (init Unit [pong] 1) as := by
    refine ⟨trivial, trivial, ?_, ?_, trivial⟩
    · exact fun _ _ _ _ _ _ _ _ => IndexMap.get?_empty _
    · intro ev id r _ hmem
      cases List.mem_singleton.mp hmem
  have hterminal : Terminal (fun _ => "") pong 7 (.ok (.string "pong")) :=
    ⟨rfl, _, _, rfl, rfl⟩
  have hd : Delivered pingManager (fun _ => "") (init Unit [pong] 1) as 0
      (.ok (.string "pong")) :=
    ⟨[.call 0 (.created 7), .call 0 .register], .handle 0 0, [.resolve 0], rfl,
      0, 0, pong, 7, .waiting 7 none, rfl, rfl, hterminal, rfl, rfl⟩
  exact (call_returns_delivered _ _ _ _ as hmeets 0 _ hd).2.2

/-- A response that is handled before the call has registered is dropped, and the call
times out. -/
theorem early_response_is_lost :
    let as : List RpcAct := [.call 0 (.created 7), .handle 0 0, .resolve 0, .call 0 .register,
      .call 0 .elapse, .call 0 .finish]
    Delivered pingManager (fun _ => "") (init Unit [pong] 1) as 0 (.ok (.string "pong")) ∧
      (pingRun as).calls[0]? = some (.timedOut 7) ∧
      ((pingRun as).calls[0]?.bind (CallPhase.result "ping" "30")) =
        some (.error "TIMEOUT: RPC call 'ping' timed out after 30s") ∧
      ¬ ∀ as c r, Delivered pingManager (fun _ => "") (init Unit [pong] 1) as c r →
        ∀ id, (pingRun as).calls[c]? ≠ some (.timedOut id) := by
  intro as
  have hterminal : Terminal (fun _ => "") pong 7 (.ok (.string "pong")) :=
    ⟨rfl, _, _, rfl, rfl⟩
  have hd : Delivered pingManager (fun _ => "") (init Unit [pong] 1) as 0
      (.ok (.string "pong")) :=
    ⟨[.call 0 (.created 7)], .handle 0 0, _, rfl,
      0, 0, pong, 7, .created 7, rfl, rfl, hterminal, rfl, rfl⟩
  have htimedOut : (pingRun as).calls[0]? = some (.timedOut 7) := rfl
  refine ⟨hd, htimedOut, rfl, fun hclaim => ?_⟩
  exact hclaim as 0 _ hd 7 htimedOut

end RpcCalls
end Doover
