import Doover.SubscriptionHub

/-! # The hub, one entry at a time

Everything the hub keeps of a channel is under the channel's key, and a step concerns one
key: it changes nothing under another, and what it does depends on nothing there
(`stepStream_local`).  Beside the steps, any event at all may arrive on a channel's
stream.
-/

namespace Doover
namespace SubscriptionHub
open StepRuns

/-- A step, or an event that arrives on the stream of a channel. -/
inductive Input where
  | act (a : Act)
  | arrive (ch : ChannelRef) (ev : Event)

/-- The channel key an input concerns. -/
def Input.key : Input → String
  | act (.subscribe ch _) | act (.write ch _) | act (.emit ch _) | arrive ch _ => ch.cacheKey
  | act (.task key _) => key

def feed (w : World) : Input → World
  | .act a => step w a
  | .arrive ch ev => w.enqueue ch ev

/-- What a step of a task does: the new entry, what goes into the cache, and whether the
channel is created. -/
structure StreamEffect where
  state : ChannelState
  cached : Option Json
  created : Bool

namespace StreamEffect

/-- The effect of a step of the task under `key`, for `target`. -/
def apply (e : StreamEffect) (w : World) (key : String) (target : ChannelRef) : World :=
  { channels := w.channels.insert key e.state
    aggregates := match e.cached with
      | some v => w.aggregates.insert key v
      | none => w.aggregates
    agent := if e.created then w.agent.insert target (.object .empty) else w.agent }

/-- The task stays the target's, and no callback is lost. -/
def Keeps (e : StreamEffect) (st : ChannelState) (target : ChannelRef) : Prop :=
  (∃ phase, e.state.task = some ⟨target, phase⟩) ∧
    e.state.callbacks.length = st.callbacks.length

end StreamEffect

theorem length_dispatch (callbacks : List Callback) (ev : Event) :
    (dispatch callbacks ev).length = callbacks.length := by
  rw [dispatch]
  split
  · rfl
  · exact List.length_map ..

/-- **One step of a task.**  It goes by the entry and, to fetch and to create, by the agent's
aggregate of the target. -/
theorem stepStream_local (key : String) (st : ChannelState) (t : StreamTask) (a : StreamAct)
    (found : Option Json) :
    (∀ w, w.agent.get? t.target = found → stepStream w key st t a = w) ∨
      ∃ e : StreamEffect, e.Keeps st t.target ∧
        ∀ w, w.agent.get? t.target = found → stepStream w key st t a = e.apply w key t.target := by
  have hgoTo : ∀ phase, (∀ w, w.agent.get? t.target = found →
      stepStream w key st t a = goTo w key st t phase) →
      ∃ e : StreamEffect, e.Keeps st t.target ∧
        ∀ w, w.agent.get? t.target = found → stepStream w key st t a = e.apply w key t.target := by
    intro phase h
    exact ⟨⟨{ st with task := some { t with phase } }, none, false⟩, ⟨⟨phase, rfl⟩, rfl⟩, h⟩
  obtain ⟨target, phase⟩ := t
  cases phase with
  | spawned =>
    cases a with
    | start => exact .inr (hgoTo .fetching fun _ _ => rfl)
    | _ => exact .inl fun _ _ => rfl
  | fetching =>
    cases a with
    | fetched ok =>
      right
      cases ok with
      | false => exact hgoTo (.seeded none) fun _ _ => rfl
      | true =>
        cases found with
        | some data =>
          refine hgoTo (.seeded (some data)) fun w hw => ?_
          simp only [stepStream, hw]
        | none =>
          by_cases hother : target.agentId.isSome
          · refine hgoTo (.seeded none) fun w hw => ?_
            simp only [stepStream, hw, if_pos hother]
          · refine hgoTo .creating fun w hw => ?_
            simp only [stepStream, hw, if_neg hother]
    | _ => exact .inl fun _ _ => rfl
  | creating =>
    cases a with
    | created ok =>
      right
      cases ok with
      | false => exact hgoTo (.seeded none) fun _ _ => rfl
      | true =>
        refine ⟨⟨{ st with task := some ⟨target, .seeded (some (.object .empty))⟩ }, none,
          found.isNone⟩, ⟨⟨_, rfl⟩, rfl⟩, fun w hw => ?_⟩
        cases found <;> simp only [stepStream, hw] <;> rfl
    | _ => exact .inl fun _ _ => rfl
  | seeded data =>
    cases a with
    | cache =>
      right
      cases data with
      | none =>
        exact ⟨⟨{ st with synced := true, task := some ⟨target, .subscribing⟩ }, none, false⟩,
          ⟨⟨_, rfl⟩, rfl⟩, fun _ _ => rfl⟩
      | some v =>
        exact ⟨⟨{ st with synced := true, task := some ⟨target, .syncing v⟩ }, some v, false⟩,
          ⟨⟨_, rfl⟩, rfl⟩, fun _ _ => rfl⟩
    | _ => exact .inl fun _ _ => rfl
  | syncing data =>
    cases a with
    | sync => exact .inr ⟨⟨_, none, false⟩, ⟨⟨_, rfl⟩, length_dispatch st.callbacks (.channelSync target.name data)⟩, fun _ _ => rfl⟩
    | _ => exact .inl fun _ _ => rfl
  | subscribing =>
    cases a with
    | subscribed ok =>
      cases ok with
      | false => exact .inr (hgoTo .backingOff fun _ _ => rfl)
      | true => exact .inr (hgoTo (.streaming []) fun _ _ => rfl)
    | _ => exact .inl fun _ _ => rfl
  | streaming queue =>
    cases a with
    | receive =>
      cases queue with
      | nil => exact .inl fun _ _ => rfl
      | cons ev queue =>
        right
        cases hdata : (if ev.isAggregateUpdate then ev.aggregateData else none) with
        | none =>
          refine hgoTo (.handling ev queue) fun w _ => ?_
          simp only [stepStream, hdata]
        | some v =>
          refine ⟨⟨{ st with synced := true, task := some ⟨target, .handling ev queue⟩ },
            some v, false⟩, ⟨⟨_, rfl⟩, rfl⟩, fun w _ => ?_⟩
          simp only [stepStream, hdata]
          rfl
    | ended => cases queue <;> exact .inr (hgoTo .backingOff fun _ _ => rfl)
    | _ => cases queue <;> exact .inl fun _ _ => rfl
  | handling ev queue =>
    cases a with
    | dispatch => exact .inr ⟨⟨_, none, false⟩, ⟨⟨_, rfl⟩, length_dispatch st.callbacks ev⟩, fun _ _ => rfl⟩
    | _ => exact .inl fun _ _ => rfl
  | backingOff =>
    cases a with
    | retry => exact .inr (hgoTo .subscribing fun _ _ => rfl)
    | _ => exact .inl fun _ _ => rfl

/-! ## Entries in order -/

/-- Every entry has a task, for a channel of its key, and a callback. -/
def InOrder (w : World) : Prop :=
  ∀ key st, w.channels.get? key = some st →
    (∃ target phase, st.task = some ⟨target, phase⟩ ∧ target.cacheKey = key) ∧ st.callbacks ≠ []

theorem inOrder_init (agent : IndexMap ChannelRef Json) : InOrder (init agent) := by
  intro key st h
  rw [init, IndexMap.get?_empty] at h
  cases h

theorem InOrder.insert {w : World} (h : InOrder w) {key : String} {st : ChannelState}
    (htask : ∃ target phase, st.task = some ⟨target, phase⟩ ∧ target.cacheKey = key)
    (hcallbacks : st.callbacks ≠ []) (aggregates : IndexMap String Json)
    (agent : IndexMap ChannelRef Json) :
    InOrder ⟨w.channels.insert key st, aggregates, agent⟩ := by
  intro k st' hst
  by_cases hk : k = key
  · subst hk
    obtain rfl : st = st' := Option.some.inj ((IndexMap.get?_insert_self ..).symm.trans hst)
    exact ⟨htask, hcallbacks⟩
  · exact h k st' ((IndexMap.get?_insert_of_ne st hk).symm.trans hst)

theorem inOrder_subscribe {w : World} (h : InOrder w) (ch : ChannelRef)
    (events : EventSubscription) : InOrder (w.subscribe ch events) := by
  refine h.insert ?_ (List.append_ne_nil_of_right_ne_nil _ (List.cons_ne_nil _ _)) _ _
  cases hst : w.channels.get? ch.cacheKey with
  | none => exact ⟨ch, .spawned, rfl, rfl⟩
  | some st =>
    obtain ⟨⟨target, phase, htask, hkey⟩, -⟩ := h _ st hst
    exact ⟨target, phase, by rw [Option.getD_some, htask]; rfl, hkey⟩

/-- What is enqueued changes nothing but a queue. -/
theorem enqueue_eq (w : World) (ch : ChannelRef) (ev : Event) :
    w.enqueue ch ev = w ∨ ∃ st task, w.channels.get? ch.cacheKey = some st ∧
      task.map StreamTask.target = st.task.map StreamTask.target ∧
      w.enqueue ch ev =
        { w with channels := w.channels.insert ch.cacheKey { st with task } } := by
  rw [World.enqueue]
  cases hst : w.channels.get? ch.cacheKey with
  | none => exact .inl rfl
  | some st =>
    refine .inr ⟨st, _, rfl, ?_, rfl⟩
    cases st.task with
    | none => rfl
    | some t =>
      rw [Option.map_some, Option.map_some, Option.map_some]
      split
      · split <;> rfl
      · rfl

theorem inOrder_enqueue {w : World} (h : InOrder w) (ch : ChannelRef) (ev : Event) :
    InOrder (w.enqueue ch ev) := by
  rcases enqueue_eq w ch ev with heq | ⟨st, task, hst, htask, heq⟩
  · rwa [heq]
  · rw [heq]
    obtain ⟨⟨target, phase, hold, hkey⟩, hcallbacks⟩ := h _ st hst
    rw [hold, Option.map_some, Option.map_eq_some_iff] at htask
    obtain ⟨⟨target', phase'⟩, rfl, rfl⟩ := htask
    have htask' : ∃ target phase, ({ st with task := some ⟨target', phase'⟩ } : ChannelState).task =
        some ⟨target, phase⟩ ∧ target.cacheKey = ch.cacheKey := ⟨target', phase', rfl, hkey⟩
    exact h.insert htask' hcallbacks _ _

/-- A step of a task in a hub in order. -/
theorem step_task (w : World) (h : InOrder w) (key : String) (a : StreamAct) :
    step w (.task key a) = w ∨ ∃ st target phase e, w.channels.get? key = some st ∧
      st.task = some ⟨target, phase⟩ ∧ target.cacheKey = key ∧
      StreamEffect.Keeps e st target ∧ step w (.task key a) = e.apply w key target := by
  rw [step]
  cases hst : w.channels.get? key with
  | none => exact .inl rfl
  | some st =>
    obtain ⟨⟨target, phase, htask, hkey⟩, -⟩ := h key st hst
    simp only [htask]
    rcases stepStream_local key st ⟨target, phase⟩ a (w.agent.get? target) with hsame | ⟨e, he, heq⟩
    · exact .inl (hsame w rfl)
    · exact .inr ⟨st, target, phase, e, rfl, htask, hkey, he, heq w rfl⟩

theorem inOrder_step {w : World} (h : InOrder w) (a : Act) : InOrder (step w a) := by
  cases a with
  | subscribe ch events => exact inOrder_subscribe h ch events
  | write ch data => exact inOrder_enqueue (w := { w with agent := w.agent.insert ch data }) h ch _
  | emit ch ev =>
    rw [step]
    split
    · exact h
    · exact inOrder_enqueue h ch ev
  | task key a =>
    rcases step_task w h key a with heq | ⟨st, target, -, e, hst, -, hkey, ⟨⟨phase, htask⟩, hlen⟩, heq⟩
    · rwa [heq]
    · rw [heq]
      refine h.insert ⟨target, phase, htask, hkey⟩ ?_ _ _
      have hne := (h key st hst).2
      rw [← List.length_pos_iff] at hne ⊢
      omega

theorem inOrder_feed {w : World} (h : InOrder w) (i : Input) : InOrder (feed w i) := by
  cases i with
  | act a => exact inOrder_step h a
  | arrive ch ev => exact inOrder_enqueue h ch ev

theorem inOrder_exec (agent : IndexMap ChannelRef Json) (is : List Input) :
    InOrder (exec feed (init agent) is) :=
  exec_invariant feed (inOrder_init agent) fun _ h i _ => inOrder_feed h i

/-! ## Other keys -/

/-- Two hubs that differ only under `k`, beside agents that differ only there. -/
structure SameExcept (k : String) (w w' : World) : Prop where
  channels : ∀ key, key ≠ k → w.channels.get? key = w'.channels.get? key
  aggregates : ∀ key, key ≠ k → w.aggregates.get? key = w'.aggregates.get? key
  agent : ∀ ch : ChannelRef, ch.cacheKey ≠ k → w.agent.get? ch = w'.agent.get? ch

namespace SameExcept
variable {k : String} {w w' w'' : World}

theorem refl (k : String) (w : World) : SameExcept k w w :=
  ⟨fun _ _ => rfl, fun _ _ => rfl, fun _ _ => rfl⟩

theorem symm (h : SameExcept k w w') : SameExcept k w' w :=
  ⟨fun key hk => (h.channels key hk).symm, fun key hk => (h.aggregates key hk).symm,
    fun ch hk => (h.agent ch hk).symm⟩

theorem trans (h : SameExcept k w w') (h' : SameExcept k w' w'') : SameExcept k w w'' :=
  ⟨fun key hk => (h.channels key hk).trans (h'.channels key hk),
    fun key hk => (h.aggregates key hk).trans (h'.aggregates key hk),
    fun ch hk => (h.agent ch hk).trans (h'.agent ch hk)⟩

end SameExcept

theorem sameExcept_enqueue (w : World) (ch : ChannelRef) (ev : Event) :
    SameExcept ch.cacheKey (w.enqueue ch ev) w := by
  rcases enqueue_eq w ch ev with heq | ⟨st, task, -, -, heq⟩
  · rw [heq]
    exact .refl _ w
  · rw [heq]
    exact ⟨fun key hk => IndexMap.get?_insert_of_ne _ hk, fun _ _ => rfl, fun _ _ => rfl⟩

theorem sameExcept_apply (e : StreamEffect) (w : World) {key : String} {target : ChannelRef}
    (hkey : target.cacheKey = key) : SameExcept key (e.apply w key target) w := by
  refine ⟨fun key hk => IndexMap.get?_insert_of_ne _ hk, fun key hk => ?_, fun ch hk => ?_⟩
  · rw [StreamEffect.apply]
    cases e.cached with
    | none => rfl
    | some v => exact IndexMap.get?_insert_of_ne v hk
  · rw [StreamEffect.apply]
    have hne : ch ≠ target := by
      rintro rfl
      exact hk hkey
    cases e.created with
    | false => rfl
    | true => exact IndexMap.get?_insert_of_ne _ hne

/-- **Frame.**  An input changes nothing under another key. -/
theorem sameExcept_feed {w : World} (h : InOrder w) (i : Input) :
    SameExcept i.key (feed w i) w := by
  cases i with
  | arrive ch ev => exact sameExcept_enqueue w ch ev
  | act a =>
    cases a with
    | subscribe ch events =>
      exact ⟨fun key hk => IndexMap.get?_insert_of_ne _ hk, fun _ _ => rfl, fun _ _ => rfl⟩
    | write ch data =>
      refine (sameExcept_enqueue { w with agent := w.agent.insert ch data } ch _).trans ?_
      refine ⟨fun _ _ => rfl, fun _ _ => rfl, fun ch' hk => ?_⟩
      have hne : ch' ≠ ch := by
        rintro rfl
        exact hk rfl
      exact IndexMap.get?_insert_of_ne data hne
    | emit ch ev =>
      rw [feed, step]
      split
      · exact .refl _ w
      · exact sameExcept_enqueue w ch ev
    | task key a =>
      rcases step_task w h key a with heq | ⟨st, target, phase, e, -, -, hkey, -, heq⟩
      · rw [feed, heq]
        exact .refl _ w
      · rw [feed, heq]
        exact sameExcept_apply e w hkey

end SubscriptionHub
end Doover
