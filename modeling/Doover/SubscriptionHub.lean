import Doover.Events
import Doover.StepRuns

/-! # The subscription hub

One task per channel keeps the hub's copy of the channel's aggregate and hands events to
the callbacks registered for it.  The task first fetches the aggregate (and creates an
own channel that is missing), puts it in the cache and dispatches it as a `ChannelSync`;
then it subscribes to the channel's events, over and over.

Beside the hub there is the device agent, which holds one aggregate per channel.  A
write puts an `AggregateUpdate` with the whole new aggregate in the queue of the
channel's event stream, if one is open; other events of the channel are put there too.
A stream that fails takes with it what is left in its queue.
-/

namespace Doover
open Json

/-- A channel, of this device or of another agent. -/
structure ChannelRef where
  name : String
  agentId : Option ℕ
deriving DecidableEq

/-- The key of a channel's entries in the hub. -/
def ChannelRef.cacheKey (ch : ChannelRef) : String :=
  match ch.agentId with
  | none => ch.name
  | some agentId => toString agentId ++ ":" ++ ch.name

namespace SubscriptionHub

/-- A registered callback. -/
structure Callback where
  events : EventSubscription
  /-- It was registered before the channel's task started. -/
  early : Bool
  /-- What it was called with, newest first. -/
  delivered : List Event

/-- The data of the last aggregate event a callback saw. -/
def Callback.lastAggregate (cb : Callback) : Option Json :=
  (cb.delivered.find? fun ev => ev.isAggregateUpdate || ev.isChannelSync).bind Event.aggregateData

/-- Where the task of a channel is. -/
inductive StreamPhase where
  | spawned
  | fetching
  /-- The own channel is missing, and being created. -/
  | creating
  | seeded (data : Option Json)
  | syncing (data : Json)
  | subscribing
  /-- The stream is open, with what is yet to be taken from it. -/
  | streaming (queue : List Event)
  /-- An event was taken and the cache refreshed; it is about to be dispatched. -/
  | handling (ev : Event) (queue : List Event)
  | backingOff

structure StreamTask where
  target : ChannelRef
  phase : StreamPhase

structure ChannelState where
  callbacks : List Callback
  task : Option StreamTask
  synced : Bool

/-- The hub and the agent. -/
structure World where
  channels : IndexMap String ChannelState
  aggregates : IndexMap String Json
  /-- The agent's aggregates. -/
  agent : IndexMap ChannelRef Json

/-- A step of a channel's task. -/
inductive StreamAct where
  | start
  /-- `fetch_channel_data` is answered, or fails. -/
  | fetched (ok : Bool)
  /-- The creating write is answered, or fails. -/
  | created (ok : Bool)
  | cache
  | sync
  | subscribed (ok : Bool)
  | receive
  | dispatch
  /-- The stream ends or fails. -/
  | ended
  | retry

inductive Act where
  | subscribe (ch : ChannelRef) (events : EventSubscription)
  /-- The aggregate becomes `data`. -/
  | write (ch : ChannelRef) (data : Json)
  /-- The agent emits an event that is not about the aggregate. -/
  | emit (ch : ChannelRef) (ev : Event)
  | task (key : String) (a : StreamAct)

/-- A hub without channels. -/
def init (agent : IndexMap ChannelRef Json) : World := ⟨.empty, .empty, agent⟩

/-- The event of a write. -/
def aggregateUpdate (ch : ChannelRef) (data : Json) : Event :=
  ⟨Event.AGGREGATE_UPDATE, ch.name, Json.ofList [("aggregate", Json.ofList [("data", data)])]⟩

namespace World

/-- The cached aggregate data for a subscribed channel, if synced. -/
def cachedAggregate (w : World) (ch : ChannelRef) : Option Json := w.aggregates.get? ch.cacheKey

/-- From the cache when the channel is subscribed, else from the agent. -/
def fetchChannelData (w : World) (ch : ChannelRef) : Option Json :=
  (w.cachedAggregate ch).or (w.agent.get? ch)

def isChannelSynced (w : World) (ch : ChannelRef) : Bool :=
  (w.channels.get? ch.cacheKey).any fun st => !st.callbacks.isEmpty && st.synced

/-- Register a callback; the first one starts the channel's task. -/
def subscribe (w : World) (ch : ChannelRef) (events : EventSubscription) : World :=
  let st := (w.channels.get? ch.cacheKey).getD ⟨[], none, false⟩
  let early := match st.task with
    | none | some ⟨_, .spawned⟩ => true
    | some _ => false
  { w with
    channels := w.channels.insert ch.cacheKey
      { st with
        callbacks := st.callbacks ++ [⟨events, early, []⟩]
        task := st.task.or (some ⟨ch, .spawned⟩) } }

/-- An event in the queue of the channel's stream, if one is open. -/
def enqueue (w : World) (ch : ChannelRef) (ev : Event) : World :=
  match w.channels.get? ch.cacheKey with
  | none => w
  | some st =>
    let task := st.task.map fun t =>
      if t.target = ch then
        match t.phase with
        | .streaming queue => { t with phase := .streaming (queue ++ [ev]) }
        | .handling ev' queue => { t with phase := .handling ev' (queue ++ [ev]) }
        | _ => t
      else t
    { w with channels := w.channels.insert ch.cacheKey { st with task } }

end World

/-- The callbacks after an event was handed to those registered for its kind. -/
def dispatch (callbacks : List Callback) (ev : Event) : List Callback :=
  let flag := ev.subscriptionFlag
  if flag = .NONE then callbacks
  else callbacks.map fun cb =>
    if cb.events.contains flag then { cb with delivered := ev :: cb.delivered } else cb

/-- The task goes on to another phase. -/
def goTo (w : World) (key : String) (st : ChannelState) (t : StreamTask) (phase : StreamPhase) :
    World :=
  { w with channels := w.channels.insert key { st with task := some { t with phase } } }

/-- `run_channel_stream`, one step between two awaits. -/
def stepStream (w : World) (key : String) (st : ChannelState) (t : StreamTask) (a : StreamAct) :
    World :=
  match t.phase, a with
  | .spawned, .start => goTo w key st t .fetching
  | .fetching, .fetched true =>
    match w.agent.get? t.target with
    | some data => goTo w key st t (.seeded (some data))
    -- a channel absent on another agent stays absent
    | none =>
      if t.target.agentId.isSome then goTo w key st t (.seeded none)
      else goTo w key st t .creating
  | .fetching, .fetched false => goTo w key st t (.seeded none)
  | .creating, .created true =>
    let agent := match w.agent.get? t.target with
      | none => w.agent.insert t.target (.object .empty)
      -- nothing is merged into what is there
      | some _ => w.agent
    { goTo w key st t (.seeded (some (.object .empty))) with agent }
  | .creating, .created false => goTo w key st t (.seeded none)
  | .seeded data, .cache =>
    { w with
      aggregates := match data with
        | some v => w.aggregates.insert key v
        | none => w.aggregates
      channels := w.channels.insert key
        { st with
          synced := true
          task := some { t with
            phase := match data with
              | some v => .syncing v
              | none => .subscribing } } }
  | .syncing data, .sync =>
    { w with
      channels := w.channels.insert key
        { st with
          callbacks := dispatch st.callbacks (Event.channelSync t.target.name data)
          task := some { t with phase := .subscribing } } }
  | .subscribing, .subscribed true => goTo w key st t (.streaming [])
  | .subscribing, .subscribed false => goTo w key st t .backingOff
  | .streaming (ev :: queue), .receive =>
    match (if ev.isAggregateUpdate then ev.aggregateData else none) with
    | some data =>
      { w with
        aggregates := w.aggregates.insert key data
        channels := w.channels.insert key
          { st with synced := true, task := some { t with phase := .handling ev queue } } }
    | none => goTo w key st t (.handling ev queue)
  | .handling ev queue, .dispatch =>
    { w with
      channels := w.channels.insert key
        { st with
          callbacks := dispatch st.callbacks ev
          task := some { t with phase := .streaming queue } } }
  | .streaming _, .ended => goTo w key st t .backingOff
  | .backingOff, .retry => goTo w key st t .subscribing
  | _, _ => w

/-- A fetch changes nothing yet: it only says whether the channel is still to be created. -/
theorem stepStream_fetched (w : World) (key : String) (st : ChannelState) (target : ChannelRef)
    (ok : Bool) :
    ∃ phase, (phase = .creating ∨ ∃ data, phase = .seeded data) ∧
      stepStream w key st ⟨target, .fetching⟩ (.fetched ok) =
        goTo w key st ⟨target, .fetching⟩ phase := by
  cases ok with
  | false => exact ⟨.seeded none, .inr ⟨none, rfl⟩, rfl⟩
  | true =>
    simp only [stepStream]
    cases w.agent.get? target with
    | some data => exact ⟨.seeded (some data), .inr ⟨some data, rfl⟩, rfl⟩
    | none =>
      by_cases hother : target.agentId.isSome
      · exact ⟨.seeded none, .inr ⟨none, rfl⟩, if_pos hother⟩
      · exact ⟨.creating, .inl rfl, if_neg hother⟩

/-- **One step.** -/
def step (w : World) : Act → World
  | .subscribe ch events => w.subscribe ch events
  | .write ch data =>
    { w with agent := w.agent.insert ch data }.enqueue ch (aggregateUpdate ch data)
  | .emit ch ev =>
    if ev.isAggregateUpdate || ev.isChannelSync then w else w.enqueue ch ev
  | .task key a =>
    match w.channels.get? key with
    | some st =>
      match st.task with
      | some t => stepStream w key st t a
      | none => w
    | none => w

end SubscriptionHub
end Doover
