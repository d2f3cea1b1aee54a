import Doover.RpcCommands
import Doover.StepRuns
import Mathlib.Data.Finset.Insert
import Mathlib.Data.Multiset.AddSub

/-! # How the RPC manager comes to hear of its channels

The manager takes note of every channel that a handler is registered for or a call is made on
and announces it to its subscriber, which registers the manager with the hub.  To take note of
a channel and to announce it are two steps, with the lock let go between them, and so are to
put a subscriber in place and to announce to it what was noted before.  Any task may come in
between, so a step here is what one task does with the lock held, and a channel that is noted
and not yet announced is in `toNotify`.

A channel noted before the subscriber is there and announced only after it is announced twice,
and every event on it is then handled twice.  `handed_once_iff` says that this is the only way:
no channel is missed, and each is heard once exactly if nothing was in `toNotify` when the
subscriber came.  `run_with` puts it in place before it hands out the manager, so there nothing
is (`served_once_at_start`).
-/

namespace Doover.RpcWiring
open StepRuns

variable {H : Type}

/-! ## The manager, its tasks and the hub -/

structure Wiring (H : Type) where
  /-- The backend has a persistent connection. -/
  persistent : Bool
  rpc : RpcManager H
  subscribed : Finset String
  /-- The subscriber is in place. -/
  subscriber : Bool
  /-- What tasks have noted or collected and are yet to announce. -/
  toNotify : Multiset String
  /-- Where the hub has the manager's callback, as often as it has it. -/
  callbacks : Multiset String

inductive Act (H : Type) where
  /-- `register_handler` enters the handler. -/
  | register (channel : Option String) (method : String) (handler : H)
  /-- `subscribe` takes note of a channel, for a handler or a call. -/
  | subscribe (channel : String)
  | notifySubscriber (channel : String)
  | setSubscriber

/-- A new manager. -/
def start (persistent : Bool) (appKey : Option String) : Wiring H :=
  ⟨persistent, ⟨appKey, .empty⟩, ∅, false, 0, 0⟩

namespace Wiring

def step (w : Wiring H) : Act H → Wiring H
  | .register channel method handler =>
    { w with rpc := { w.rpc with handlers := w.rpc.handlers.insert (channel, method) handler } }
  | .subscribe channel =>
    if !w.persistent || channel ∈ w.subscribed then w
    else
      { w with
        subscribed := insert channel w.subscribed
        toNotify := channel ::ₘ w.toNotify }
  | .notifySubscriber channel =>
    -- only what a task is yet to announce can be announced
    if channel ∈ w.toNotify then
      { w with
        toNotify := w.toNotify.erase channel
        callbacks := if w.subscriber then channel ::ₘ w.callbacks else w.callbacks }
    else w
  | .setSubscriber =>
    { w with
      subscriber := true
      toNotify := w.toNotify + w.subscribed.val }

/-- The events that `wire_rpc` asks the hub for. -/
def RPC_EVENTS : EventSubscription :=
  (EventSubscription.MESSAGE_CREATE.bitor .MESSAGE_UPDATE).bitor .ONESHOT_MESSAGE

/-- The events that a callback of the manager is called with. -/
def IsRpcEvent (ev : Event) : Prop :=
  ev.subscriptionFlag ≠ .NONE ∧ RPC_EVENTS.contains ev.subscriptionFlag = true

instance (ev : Event) : Decidable (IsRpcEvent ev) := inferInstanceAs (Decidable (_ ∧ _))

/-- What `handle_event` is called with when the hub dispatches an event. -/
def handed (w : Wiring H) (ev : Event) : List Event :=
  if IsRpcEvent ev then List.replicate (w.callbacks.count ev.channel) ev else []

/-- The requests that handlers run on. -/
def served (w : Wiring H) (now : ℤ) (ev : Event) : List (RpcRequest H) :=
  (w.handed ev).filterMap (w.rpc.runs now)

/-! ## What is announced -/

/-- No subscriber yet: what is to be announced was noted, and once. -/
def Unwired (w : Wiring H) : Prop :=
  w.subscriber = false ∧ w.callbacks = 0 ∧ w.toNotify ≤ w.subscribed.val

theorem unwired_start (persistent : Bool) (appKey : Option String) :
    Unwired (start persistent appKey : Wiring H) := ⟨rfl, rfl, le_refl 0⟩

theorem unwired_step {w : Wiring H} (h : w.Unwired) {a : Act H} (ha : a ≠ .setSubscriber) :
    (w.step a).Unwired := by
  obtain ⟨hsubscriber, hcallbacks, htoNotify⟩ := h
  cases a with
  | register channel method handler => exact ⟨hsubscriber, hcallbacks, htoNotify⟩
  | subscribe channel =>
    rw [step]
    split_ifs with hnoted
    · exact ⟨hsubscriber, hcallbacks, htoNotify⟩
    · have hnew : channel ∉ w.subscribed := fun hmem => hnoted (by simp [hmem])
      refine ⟨hsubscriber, hcallbacks, ?_⟩
      show channel ::ₘ w.toNotify ≤ (insert channel w.subscribed).val
      rw [Finset.insert_val_of_notMem hnew]
      exact (Multiset.cons_le_cons_iff channel).mpr htoNotify
  | notifySubscriber channel =>
    rw [step]
    split_ifs with hmem hsome
    · exact absurd (hsubscriber.symm.trans hsome) Bool.false_ne_true
    · exact ⟨hsubscriber, hcallbacks, (Multiset.erase_le channel _).trans htoNotify⟩
    · exact ⟨hsubscriber, hcallbacks, htoNotify⟩
  | setSubscriber => exact absurd rfl ha

/-- With the subscriber in place every channel noted is announced once, or is yet to be, and
the channels in `late` once more. -/
def Accounts (late : Multiset String) (w : Wiring H) : Prop :=
  w.subscriber = true ∧ w.callbacks + w.toNotify = w.subscribed.val + late ∧
    late ≤ w.subscribed.val

/-- Late is what was still to be announced when the subscriber came. -/
theorem Unwired.setSubscriber {w : Wiring H} (h : w.Unwired) :
    Accounts w.toNotify (w.step .setSubscriber) := by
  obtain ⟨-, hcallbacks, htoNotify⟩ := h
  refine ⟨rfl, ?_, htoNotify⟩
  show w.callbacks + (w.toNotify + w.subscribed.val) = w.subscribed.val + w.toNotify
  rw [hcallbacks, zero_add, add_comm]

theorem Accounts.step {late : Multiset String} {w : Wiring H} (h : w.Accounts late) {a : Act H}
    (ha : a ≠ .setSubscriber) : (w.step a).Accounts late := by
  obtain ⟨hsubscriber, hcount, hlate⟩ := h
  cases a with
  | register channel method handler => exact ⟨hsubscriber, hcount, hlate⟩
  | subscribe channel =>
    rw [Wiring.step]
    split_ifs with hnoted
    · exact ⟨hsubscriber, hcount, hlate⟩
    · have hnew : channel ∉ w.subscribed := fun hmem => hnoted (by simp [hmem])
      have hval := Finset.insert_val_of_notMem hnew
      refine ⟨hsubscriber, ?_, ?_⟩
      · show w.callbacks + channel ::ₘ w.toNotify = (insert channel w.subscribed).val + late
        rw [hval, Multiset.add_cons, Multiset.cons_add, hcount]
      · show late ≤ (insert channel w.subscribed).val
        rw [hval]
        exact hlate.trans (Multiset.le_cons_self _ channel)
  | notifySubscriber channel =>
    rw [Wiring.step]
    split_ifs with hmem
    · refine ⟨hsubscriber, ?_, hlate⟩
      show channel ::ₘ w.callbacks + w.toNotify.erase channel = w.subscribed.val + late
      rw [Multiset.cons_add, ← Multiset.add_cons, Multiset.cons_erase hmem, hcount]
    · exact ⟨hsubscriber, hcount, hlate⟩
  | setSubscriber => exact absurd rfl ha

/-! ## Whole runs -/

section Runs
variable {persistent : Bool} {appKey : Option String} {before after : List (Act H)}

theorem unwired_run (hbefore : .setSubscriber ∉ before) :
    (exec step (start persistent appKey) before).Unwired :=
  exec_invariant step (unwired_start persistent appKey)
    fun _ h _ ha => unwired_step h fun heq => hbefore (heq ▸ ha)

theorem accounts_run (hbefore : .setSubscriber ∉ before) (hafter : .setSubscriber ∉ after) :
    (exec step (start persistent appKey) (before ++ .setSubscriber :: after)).Accounts
      (exec step (start persistent appKey) before).toNotify := by
  rw [exec_append, exec_cons]
  exact exec_invariant step (unwired_run hbefore).setSubscriber
    fun _ h _ ha => h.step fun heq => hafter (heq ▸ ha)

/-- How often the hub has the manager's callback when every task has done its announcing. -/
theorem count_callbacks (hbefore : .setSubscriber ∉ before) (hafter : .setSubscriber ∉ after)
    (hidle : (exec step (start persistent appKey) (before ++ .setSubscriber :: after)).toNotify =
      0) (channel : String) :
    let w := exec step (start persistent appKey) (before ++ .setSubscriber :: after)
    w.callbacks.count channel = (if channel ∈ w.subscribed then 1 else 0) +
      (exec step (start persistent appKey) before).toNotify.count channel := by
  intro w
  obtain ⟨-, hcount, -⟩ : w.Accounts _ := accounts_run hbefore hafter
  rw [hidle, add_zero] at hcount
  rw [hcount, Multiset.count_add, Multiset.count_eq_of_nodup w.subscribed.nodup]
  rfl

theorem handed_of_isRpcEvent (w : Wiring H) {ev : Event} (h : IsRpcEvent ev) :
    w.handed ev = List.replicate (w.callbacks.count ev.channel) ev := if_pos h

/-- There is an event of the manager's on every channel. -/
def messageCreate (channel : String) : Event := ⟨Event.MESSAGE_CREATE, channel, .null⟩

theorem isRpcEvent_messageCreate (channel : String) : IsRpcEvent (messageCreate channel) := by
  have hflag : (messageCreate channel).subscriptionFlag = .MESSAGE_CREATE := rfl
  rw [IsRpcEvent, hflag]
  exact ⟨by decide, by decide⟩

/-- **Every request is heard, and once.**  When every task has done its announcing, the manager
hears of what happens on every channel it has noted; and of each event once, and of nothing on
other channels, exactly if no task was about to announce a channel when the subscriber came. -/
theorem handed_once_iff (persistent : Bool) (appKey : Option String) {before after : List (Act H)}
    (hbefore : .setSubscriber ∉ before) (hafter : .setSubscriber ∉ after)
    (hidle : (exec step (start persistent appKey) (before ++ .setSubscriber :: after)).toNotify =
      0) :
    let w := exec step (start persistent appKey) (before ++ .setSubscriber :: after)
    (∀ ev, IsRpcEvent ev → ev.channel ∈ w.subscribed → ev ∈ w.handed ev) ∧
      ((∀ ev, IsRpcEvent ev → w.handed ev = if ev.channel ∈ w.subscribed then [ev] else []) ↔
        (exec step (start persistent appKey) before).toNotify = 0) := by
  intro w
  have hlate : _ ≤ w.subscribed.val := (accounts_run hbefore hafter).2.2
  have hcallbacks := count_callbacks hbefore hafter hidle
  generalize (exec step (start persistent appKey) before).toNotify = late at hlate hcallbacks
  refine ⟨fun ev hev hmem => ?_, fun h => ?_, fun h ev hev => ?_⟩
  · rw [handed_of_isRpcEvent w hev, hcallbacks, if_pos hmem]
    exact List.mem_replicate.mpr ⟨by omega, rfl⟩
  · -- a late channel is noted, so an event on it is handed over twice
    by_contra hne
    obtain ⟨channel, hmem⟩ := Multiset.exists_mem_of_ne_zero hne
    have hnoted : channel ∈ w.subscribed := Multiset.mem_of_le hlate hmem
    have hpos := Multiset.count_pos.mpr hmem
    have hlength := congrArg List.length (h _ (isRpcEvent_messageCreate channel))
    rw [handed_of_isRpcEvent w (isRpcEvent_messageCreate channel), List.length_replicate] at hlength
    change w.callbacks.count channel = (if channel ∈ w.subscribed then _ else _ : List Event).length
      at hlength
    rw [hcallbacks, if_pos hnoted, if_pos hnoted, List.length_singleton] at hlength
    omega
  · rw [handed_of_isRpcEvent w hev, hcallbacks, h, Multiset.count_zero, add_zero]
    split_ifs <;> rfl

/-- A handler runs on messages and one-shot messages only. -/
theorem isRpcEvent_of_runs {w : Wiring H} {now : ℤ} {ev : Event} {r : RpcRequest H}
    (h : w.rpc.runs now ev = some r) : IsRpcEvent ev := by
  have hkind : (ev.isMessageCreate || ev.isOneShot) = true := by
    by_contra hne
    rw [RpcManager.runs, if_neg hne] at h
    cases h
  have hflag : ev.subscriptionFlag = .MESSAGE_CREATE ∨ ev.subscriptionFlag = .ONESHOT_MESSAGE := by
    rcases Bool.or_eq_true_iff.mp hkind with hname | hname
    · have hname : ev.eventName = Event.MESSAGE_CREATE := beq_iff_eq.mp hname
      rw [Event.subscriptionFlag, hname]
      exact Or.inl rfl
    · have hname : ev.eventName = Event.ONE_SHOT_MESSAGE := beq_iff_eq.mp hname
      rw [Event.subscriptionFlag, hname]
      exact Or.inr rfl
  rw [IsRpcEvent]
  rcases hflag with hflag | hflag <;> rw [hflag] <;> exact ⟨by decide, by decide⟩

/-- As the runner wires the manager, before anyone else has it, a handler runs once on each
request that it is to run on. -/
theorem served_once_at_start (hafter : .setSubscriber ∉ after)
    (hidle : (exec step (start persistent appKey) (.setSubscriber :: after)).toNotify = 0)
    {now : ℤ} {ev : Event} {r : RpcRequest H}
    (hmem : ev.channel ∈ (exec step (start persistent appKey) (.setSubscriber :: after)).subscribed)
    (hruns : (exec step (start persistent appKey) (.setSubscriber :: after)).rpc.runs now ev =
      some r) :
    (exec step (start persistent appKey) (.setSubscriber :: after)).served now ev = [r] := by
  have hbefore : Act.setSubscriber ∉ ([] : List (Act H)) := List.not_mem_nil
  have hcount : Multiset.count ev.channel _ = (if ev.channel ∈ _ then 1 else 0) + 0 :=
    count_callbacks hbefore hafter hidle ev.channel
  rw [List.nil_append, if_pos hmem] at hcount
  rw [served, handed_of_isRpcEvent _ (isRpcEvent_of_runs hruns), hcount]
  show List.filterMap _ [ev] = [r]
  rw [List.filterMap_cons_some hruns, List.filterMap_nil]

end Runs

/-- A handler registered once the manager is wired. -/
def pingActs : List (Act Unit) :=
  [.register (some "dv-rpc") "ping" (), .subscribe "dv-rpc", .notifySubscriber "dv-rpc"]

theorem handed_once_ping :
    let w := exec step (start true none) ([] ++ .setSubscriber :: pingActs)
    (∀ ev, IsRpcEvent ev → ev.channel ∈ w.subscribed → ev ∈ w.handed ev) ∧
      ((∀ ev, IsRpcEvent ev → w.handed ev = if ev.channel ∈ w.subscribed then [ev] else []) ↔
        (exec step (start true none : Wiring Unit) []).toNotify = 0) :=
  handed_once_iff true none List.not_mem_nil (by simp [pingActs]) (by decide)

end Wiring
end Doover.RpcWiring
