import Doover.WriteGuard

/-! # What an invocation is told

A processor is invoked with an event: the kind of event in `op`, what happened in `d`, a first
token, and where to ask for more.  `decodePayload` makes the typed payload of `op` and `d`, or
says what is missing; `setupContext` trades the token for the identity that the processor acts
under, from the `upgrade` that came with the event or from the info endpoint of the subscription
or the schedule.

A Lambda invocation carries the event in an SNS record, or is the event itself (`unwrapEvent`).
-/

namespace Doover
open Json

namespace DooverError

def invalidPayload (message : String) : DooverError :=
  ⟨"InvalidPayload", "invalid payload: " ++ message⟩

def other (message : String) : DooverError := ⟨"RuntimeError", message⟩

end DooverError

/-- A failure with the error's own name and text. -/
def DispatchEnd.ofError (e : DooverError) : DispatchEnd := .failed e.typeName e.message

/-- `serde_json::Value::get` and `as_str`. -/
def Json.getStr (data : Json) (key : String) : Option String := (data.get? key).bind asStr

/-- An id that may be a string or a number; `text` is how numbers are written. -/
def idString (text : Number → String) : Option Json → Option String
  | some (.string s) => some s
  | some (.number n) => some (text n)
  | _ => none

/-! ## Events -/

/-- The name of a `ChannelId`. -/
def channelIdName (data : Json) : Except DooverError String :=
  match data.getStr "name" with
  | some name => .ok name
  | none => .error (.invalidPayload "channel missing name")

/-- The channel that the field `channel` names. -/
def channelOf (what : String) (data : Json) : Except DooverError String :=
  match data.get? "channel" with
  | some channel => channelIdName channel
  | none => .error (.invalidPayload (what ++ " missing channel"))

namespace EventPayload

/-- The message is in `message`, or is all there is. -/
def messageCreateOf (d : Json) : Except DooverError EventPayload := do
  let message := (d.get? "message").getD d
  let channel ← channelOf "message" message
  pure (.messageCreate channel ((message.get? "data").getD .null))

def aggregateUpdateOf (d : Json) : Except DooverError EventPayload := do
  let channel ← channelOf "event" d
  pure (.aggregateUpdate channel
    (((d.get? "request_data").bind (·.get? "data")).getD .null))

def isAlarmState (s : String) : Bool := s ∈ ["NoData", "OK", "Alarm", "AlarmPending"]

/-- A state of the alarm that the event must have. -/
def alarmState (d : Json) (key missing : String) : Except DooverError Unit :=
  if (d.getStr key).any isAlarmState then .ok () else .error (.invalidPayload missing)

def alarmTriggerOf (d : Json) : Except DooverError EventPayload := do
  let channel ← channelOf "event" d
  match d.get? "alarm" with
  | none => .error (.invalidPayload "event missing alarm")
  | some alarm => alarmState alarm "state" "alarm has no known state"
  alarmState d "old_state" "event missing old_state"
  alarmState d "new_state" "event missing new_state"
  pure (.alarmTrigger channel)

end EventPayload

/-- `op` and `d` decoded; `none` for an unknown `op`.  The processor says what it makes of the
payload of an ingestion endpoint. -/
def decodePayload (parseIngestionPayload : String → Except DooverError Json) (op : String)
    (d : Json) : Except DispatchEnd (Option EventPayload) :=
  let decoded : Except DooverError (Option EventPayload) :=
    if op = "on_message_create" then some <$> EventPayload.messageCreateOf d
    else if op = "on_aggregate_update" then some <$> EventPayload.aggregateUpdateOf d
    else if op = "on_alarm_trigger" then some <$> EventPayload.alarmTriggerOf d
    else if op = "on_deployment" then .ok (some .deployment)
    else if op = "on_schedule" then .ok (some .schedule)
    else if op = "on_ingestion_endpoint" then
      (fun _ => some .ingestionEndpoint) <$>
        parseIngestionPayload ((d.getStr "payload").getD "")
    else if op = "on_manual_invoke" then .ok (some .manualInvoke)
    else .ok none
  decoded.mapError .ofError

/-! ## The token upgrade -/

/-- Where summaries go. -/
structure InvocationPublishTarget where
  agentId : Option ℕ
  channel : String
deriving DecidableEq

/-- `dv_proc_config`. -/
structure ProcConfig where
  logLevel : String
  logOverrides : IndexMap String Json
  invTargets : List InvocationPublishTarget
  liveLogs : Bool

namespace InvocationPublishTarget

/-- An object, or the fields in order. -/
def deserialize : Json → Option InvocationPublishTarget
  | .object m => do
    let channel ← (← m.get? "channel").asStr
    pure ⟨(m.get? "agent_id").bind asU64, channel⟩
  | .array [agentId, .string channel] => some ⟨asU64 agentId, channel⟩
  | _ => none

end InvocationPublishTarget

namespace ProcConfig

def default : ProcConfig := ⟨"INFO", .empty, [⟨none, "dv-proc-inv-$app_id"⟩], false⟩

/-- A field that is read if it is there. -/
def field {α : Type} (m : IndexMap String Json) (key : String) (read : Json → Option α)
    (missing : α) : Option α :=
  match m.get? key with
  | some v => read v
  | none => some missing

def asBool : Json → Option Bool
  | .bool b => some b
  | _ => none

def deserialize (m : IndexMap String Json) : Option ProcConfig := do
  let logLevel ← field m "log_level" asStr default.logLevel
  let logOverrides ← field m "log_overrides" asObject default.logOverrides
  let invTargets ← field m "inv_targets"
    (fun v => v.asArray.bind fun items => items.mapM InvocationPublishTarget.deserialize)
    default.invTargets
  let liveLogs ← field m "live_logs" asBool default.liveLogs
  pure ⟨logLevel, logOverrides, invTargets, liveLogs⟩

/-- What is missing or invalid falls back to the defaults. -/
def fromValue : Option Json → ProcConfig
  | some (.object m) => (deserialize m).getD default
  | _ => default

end ProcConfig

/-- What the token upgrade gives, as the runner uses it. -/
structure Upgrade where
  agentId : ℕ
  appKey : String
  token : String
  organisationId : Option ℕ
  deploymentConfig : Json
  tagValues : Json
  connectionData : Json

namespace Upgrade

/-- `SubscriptionInfo::from_value`. -/
def fromValue (data : Json) : Except DooverError Upgrade :=
  match (data.get? "agent_id").bind asU64 with
  | none => .error (.invalidPayload "SubscriptionInfo missing agent_id")
  | some agentId =>
    match data.getStr "app_key" with
    | none => .error (.invalidPayload "SubscriptionInfo missing app_key")
    | some appKey =>
      match data.getStr "token" with
      | none => .error (.invalidPayload "SubscriptionInfo missing token")
      | some token =>
        let get key := (data.get? key).getD .null
        .ok ⟨agentId, appKey, token, (data.get? "organisation_id").bind asU64,
          get "deployment_config", get "tag_values", get "connection_data"⟩

def appId (info : Upgrade) : Option String := info.deploymentConfig.getStr "APP_ID"

def procConfig (info : Upgrade) : ProcConfig :=
  .fromValue (info.deploymentConfig.get? "dv_proc_config")

/-- What the dispatch uses of it. -/
def toSubscriptionInfo (info : Upgrade) : SubscriptionInfo := ⟨info.appKey, info.tagValues⟩

/-- The body of an info endpoint, which must not be empty. -/
def ofResponse (what : String) : Except DooverError (Option Json) → Except DooverError Upgrade
  | .error e => .error e
  | .ok none => .error (.invalidPayload ("empty " ++ what ++ " info"))
  | .ok (some data) => fromValue data

end Upgrade

/-- What the info endpoints answer, by the id they are asked for. -/
structure InfoEndpoints where
  subscription : String → Except DooverError (Option Json)
  schedule : String → Except DooverError (Option Json)

/-- `setup_context`: the upgrade that came with the event comes first. -/
def setupContext (endpoints : InfoEndpoints) (d : Json) (subscriptionId scheduleId : Option String) :
    Except DispatchEnd Upgrade :=
  match (d.get? "upgrade").filter (fun v => !(v matches .null)), subscriptionId, scheduleId with
  | some upgrade, _, _ => (Upgrade.fromValue upgrade).mapError .ofError
  | none, some id, _ =>
    (Upgrade.ofResponse "subscription" (endpoints.subscription id)).mapError .ofError
  | none, none, some id =>
    (Upgrade.ofResponse "schedule" (endpoints.schedule id)).mapError .ofError
  | none, none, none => .error (.failed "ValueError" "No subscription or schedule ID provided.")

/-! ## Lambda events -/

/-- An array element, of what is an array. -/
def Json.at? : Json → ℕ → Option Json
  | .array items, n => items[n]?
  | _, _ => none

/-- The event and the subscription id; `parse` reads a JSON text. -/
def unwrapEvent (parse : String → Except DooverError Json) (event : Json) :
    Except DooverError (Json × Option String) :=
  match (event.get? "Records").bind (·.at? 0) with
  | none => .ok (event, none)
  | some record =>
    match record.getStr "EventSource" with
    | none => .ok (event, none)
    | some source =>
      if source ≠ "aws:sns" then
        .error (.other "Unknown event. Must originate from SNS or EventBridge Schedules")
      else
        match (record.get? "Sns").bind (·.getStr "Message") with
        | none => .error (.invalidPayload "SNS record missing Sns.Message")
        | some message => do
          let data ← parse message
          pure (data, record.getStr "EventSubscriptionArn")

end Doover
