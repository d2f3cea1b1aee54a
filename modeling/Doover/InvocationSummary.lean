import Doover.ProcessorEvents

/-! # The summary of an invocation

However an invocation ends, `run_invocation` makes a summary of it and posts it to the targets
of the deployment config.  The targets are known once the token has been upgraded, and so is the
`$app_id` in their channels; an invocation that ends before posts nothing.

A target with the name of the channel that triggered the invocation is refused by the client's
guard (`summary_posted_iff`).  Like every name, a target's is compared as it is spelled.
-/

namespace Doover
open Json

namespace SkipReason

def asStr : SkipReason → String
  | .noHandler => "no_handler"
  | .preHookFilter => "pre_hook_filter"
  | .tagValuesSelfLoop => "tag_values_self_loop"
  | .postSetupFilter => "post_setup_filter"

end SkipReason

structure LambdaMeta where
  requestId : Option String
  functionName : Option String
  functionVersion : Option String

/-! ## Channels of targets -/

/-- `str::replace` of `$app_id`. -/
def replaceAppId (appId : List Char) : List Char → List Char
  | '$' :: 'a' :: 'p' :: 'p' :: '_' :: 'i' :: 'd' :: rest => appId ++ replaceAppId appId rest
  | c :: rest => c :: replaceAppId appId rest
  | [] => []

def InvocationPublishTarget.channelFor (target : InvocationPublishTarget) (appId : String) :
    String :=
  String.ofList (replaceAppId appId.toList target.channel.toList)

/-! ## One invocation -/

/-- An invocation: the event, the API, the processor's callbacks, by the tags they set, and the
clock. -/
structure Occurrence where
  event : Json
  subscriptionId : Option String
  /-- The client as it was made for this invocation. -/
  client : DataClient
  endpoints : InfoEndpoints
  lambda : LambdaMeta
  startedAtMs : UInt64
  durationMs : UInt64
  /-- How a number is written. -/
  text : Number → String
  parseIngestionPayload : String → Except DooverError Json
  preHookFilter : EventPayload → Bool
  setup : List TagOp
  postSetupFilter : List TagOp × Bool
  handler : List TagOp × Except String Handled
  /-- The answers to the commit that follows the handler. -/
  answers : CommitAnswers
  close : List TagOp
  /-- The answers to the summary, by the place of the target. -/
  summaryAnswers : ServerAnswers

namespace Occurrence
variable (x : Occurrence)

def d : Json := (x.event.get? "d").getD (.object .empty)

def op : Option String := x.event.getStr "op"

def scheduleId : Option String := idString x.text (x.d.get? "schedule_id")

def ingestionId : Option String := idString x.text (x.d.get? "ingestion_id")

def decoded : Except DispatchEnd (Option EventPayload) :=
  decodePayload x.parseIngestionPayload (x.op.getD "") x.d

def upgrade : Except DispatchEnd Upgrade :=
  setupContext x.endpoints x.d x.subscriptionId x.scheduleId

/-- The pipeline of the invocation. -/
def invocation : Invocation where
  event := x.event
  decodePayload := x.decoded
  preHookFilter := match x.decoded with
    | .ok (some payload) => x.preHookFilter payload
    | _ => true
  setupContext := x.upgrade.map Upgrade.toSubscriptionInfo
  setup := x.setup
  postSetupFilter := x.postSetupFilter
  handler := x.handler
  answers := x.answers
  close := x.close

/-- The payload and the identity of an invocation that gets to its setup. -/
def upgraded : Option (EventPayload × Upgrade) :=
  match x.event.getStr "token", x.decoded, x.upgrade with
  | some _, .ok (some payload), .ok info => if x.preHookFilter payload then some (payload, info) else none
  | _, _, _ => none

/-- The agent is first the event's, which a test may set. -/
def agentId : Option ℕ :=
  match x.upgraded with
  | some (_, info) => some info.agentId
  | none => if (x.event.getStr "token").isSome then (x.event.get? "agent_id").bind asU64 else none

def status : Except DispatchEnd Unit → String
  | .ok _ => "success"
  | .error (.skipped _) => "skipped"
  | .error (.failed _ _) => "error"

def skipReason : Except DispatchEnd Unit → Option SkipReason
  | .error (.skipped reason) => some reason
  | _ => none

def error : Except DispatchEnd Unit → Json
  | .error (.failed errorType message) =>
    .ofList [("type", .string errorType), ("message", .string message)]
  | _ => .null

/-- A string, or null. -/
def strOrNull (s : Option String) : Json := s.elim .null .string

/-- The summary, which is also what the invocation returns. -/
def summary : Json :=
  let outcome := (dispatchInvocation x.invocation).1
  let info := x.upgraded.map Prod.snd
  .ofList [
    ("app_key", strOrNull (info.map Upgrade.appKey)),
    ("app_id", strOrNull (info.bind Upgrade.appId)),
    -- ids are 64 bits wide, which not every reader's numbers are
    ("agent_id", strOrNull (x.agentId.map toString)),
    ("event_type", strOrNull x.op),
    ("subscription_id", strOrNull x.subscriptionId),
    ("schedule_id", strOrNull x.scheduleId),
    ("ingestion_id", strOrNull x.ingestionId),
    ("started_at", .ofU64 x.startedAtMs),
    ("duration_ms", .ofU64 x.durationMs),
    ("status", .string (status outcome)),
    ("skip_reason", strOrNull ((skipReason outcome).map SkipReason.asStr)),
    ("error", error outcome),
    ("requestId", strOrNull x.lambda.requestId),
    ("function_name", strOrNull x.lambda.functionName),
    ("function_version", strOrNull x.lambda.functionVersion)]

/-- The client once the processor has its identity. -/
def clientFor (payload : EventPayload) (info : Upgrade) : DataClient :=
  { x.client.forInvocation payload info.appKey with agentId := some info.agentId }

/-- One post to a target; an error is logged only. -/
def post (payload : EventPayload) (info : Upgrade) (appId : String)
    (target : InvocationPublishTarget) (n : ℕ) : List HttpRequest :=
  ((x.clientFor payload info).createMessageHttp (target.channelFor appId) x.summary none
    target.agentId (x.summaryAnswers n)).emitted

/-- `publish_invocation_summary`. -/
def posted : List HttpRequest :=
  match x.upgraded with
  | none => []
  | some (payload, info) =>
    match info.appId with
    | none => []
    | some appId =>
      info.procConfig.invTargets.zipIdx.flatMap fun (target, n) => x.post payload info appId target n

/-- `handle_event_with`: an invocation, as `invoke` sets it up, of the event that was unwrapped;
with the summary it returns what was posted. -/
def handleEventWith (parse : String → Except DooverError Json)
    (invoke : Json → Option String → Occurrence) (event : Json) :
    Except DooverError (Json × List HttpRequest) := do
  let (data, subscriptionId) ← unwrapEvent parse event
  let x := invoke data subscriptionId
  pure (x.summary, x.posted)

end Occurrence

/-! ## What is posted -/

namespace Occurrence
variable {x : Occurrence} {payload : EventPayload} {info : Upgrade} {appId : String}
  {target : InvocationPublishTarget} {n : ℕ}

/-- The summary has keys that are not an app's. -/
theorem exists_summary_keys :
    ∃ m, x.summary = .object m ∧ "app_key" ∈ m.keys ∧ "status" ∈ m.keys := by
  refine ⟨_, rfl, ?_, ?_⟩ <;> rw [IndexMap.mem_keys_ofList] <;> simp

theorem get?_summary_status :
    x.summary.get? "status" = some (.string (status (dispatchInvocation x.invocation).1)) := by
  obtain ⟨m, hm, -, hmem⟩ := exists_summary_keys (x := x)
  obtain ⟨v, hv⟩ : ∃ v, x.summary.get? "status" = some v := by
    rw [hm]
    exact ⟨_, IndexMap.get?_of_mem hmem⟩
  rw [hv]
  have hentry := IndexMap.mem_of_get?_ofList hv
  simpa using hentry

/-- The client's guard refuses the summary on the invoking channel, also where it lets writes
through. -/
theorem checkInvokingChannel_summary_iff {c : DataClient} {channel : String} :
    c.checkInvokingChannel channel x.summary = .ok () ↔ c.invokingChannel ≠ some channel := by
  obtain ⟨m, hm, happ, hstatus⟩ := exists_summary_keys (x := x)
  rw [DataClient.checkInvokingChannel_ok_iff, DataClient.LetsThrough]
  refine ⟨fun h hinvoking => ?_, fun h hinvoking => absurd hinvoking h⟩
  obtain ⟨-, hkeys⟩ := h hinvoking
  have heq := (hkeys m hm _ happ).trans (hkeys m hm _ hstatus).symm
  exact absurd (Option.some.inj heq) (by decide)

theorem resolveAgentId_clientFor (agentId : Option ℕ) :
    (x.clientFor payload info).resolveAgentId agentId = .ok (agentId.getD info.agentId) := by
  cases agentId <;> rfl

/-- Every try of a post is the same request. -/
theorem mem_post {r : HttpRequest} (h : r ∈ x.post payload info appId target n) :
    r.agentId = target.agentId.getD info.agentId ∧
      r.endpoint = .messages (target.channelFor appId) ∧ r.payload = x.summary ∧
        payload.invokingChannel ≠ some (target.channelFor appId) := by
  obtain ⟨hagent, htarget, hpayload⟩ := DataClient.writesTo_createMessageHttp none r h
  rw [resolveAgentId_clientFor] at hagent
  refine ⟨(Except.ok.inj hagent).symm, congrArg Prod.snd (List.mem_singleton.mp htarget),
    hpayload, ?_⟩
  have hcheck : (x.clientFor payload info).checkInvokingChannel (target.channelFor appId)
      x.summary = .ok () := by
    cases hcheck : (x.clientFor payload info).checkInvokingChannel (target.channelFor appId)
        x.summary with
    | ok u => rfl
    | error e =>
      rw [post, DataClient.createMessageHttp, hcheck] at h
      exact absurd h List.not_mem_nil
  exact checkInvokingChannel_summary_iff.mp hcheck

theorem exists_mem_post_iff :
    (∃ r, r ∈ x.post payload info appId target n) ↔ x.client.maxRetries ≠ 0 ∧
      payload.invokingChannel ≠ some (target.channelFor appId) := by
  constructor
  · rintro ⟨r, hr⟩
    refine ⟨fun hmute => ?_, (mem_post hr).2.2.2⟩
    have hrefused : ((x.clientFor payload info).createMessageHttp (target.channelFor appId)
        x.summary none target.agentId (x.summaryAnswers n)).Refused :=
      DataClient.refused_createMessageHttp (Or.inr (Or.inr hmute))
    rw [post, hrefused.1] at hr
    exact absurd hr List.not_mem_nil
  · rintro ⟨hretries, hchannel⟩
    refine DataClient.sends_createMessageHttp (checkInvokingChannel_summary_iff.mpr hchannel) ?_
    rw [DataClient.Mute, resolveAgentId_clientFor]
    rintro (⟨e, he⟩ | hmute)
    · cases he
    · exact hretries hmute

theorem mem_posted_iff {r : HttpRequest} :
    r ∈ x.posted ↔ ∃ payload info appId, x.upgraded = some (payload, info) ∧
      info.appId = some appId ∧ ∃ target n, (target, n) ∈ info.procConfig.invTargets.zipIdx ∧
        r ∈ x.post payload info appId target n := by
  rw [posted]
  constructor
  · intro h
    split at h
    · exact absurd h List.not_mem_nil
    · rename_i payload info hupgraded
      split at h
      · exact absurd h List.not_mem_nil
      · rename_i appId happ
        obtain ⟨⟨target, n⟩, hmem, hr⟩ := List.mem_flatMap.mp h
        exact ⟨payload, info, appId, hupgraded, happ, target, n, hmem, hr⟩
  · rintro ⟨payload, info, appId, hupgraded, happ, target, n, hmem, hr⟩
    simp only [hupgraded, happ]
    exact List.mem_flatMap.mpr ⟨(target, n), hmem, hr⟩

/-! ## What it says -/

theorem status_eq_success_iff {outcome : Except DispatchEnd Unit} :
    status outcome = "success" ↔ outcome = .ok () := by
  cases outcome with
  | ok u => exact iff_of_true rfl rfl
  | error e =>
    cases e with
    | skipped reason =>
      exact iff_of_false (show "skipped" ≠ "success" by decide) fun h => by cases h
    | failed errorType message =>
      exact iff_of_false (show "error" ≠ "success" by decide) fun h => by cases h

theorem dispatch_ok_iff (inv : Invocation) :
    (dispatchInvocation inv).1 = .ok () ↔ inv.reachesCommit = true ∧ inv.committed = .ok () := by
  cases hreach : inv.reachesCommit with
  | false => exact iff_of_false (dispatch_of_not_reachesCommit hreach) fun h => by cases h.1
  | true =>
    rw [(dispatch_of_reachesCommit hreach).2.1]
    exact (and_iff_right rfl).symm

/-- **Who is told of an invocation, and what.**  What is posted is the summary, and never under
the name of the channel that triggered the invocation.  It is posted to an agent's channel of a
name exactly if the client makes a try at all, the token was upgraded, to an app with an id, and
some target gives that name, unless it is the trigger's.  And the summary says `success` exactly
if the event came to the commit of the tags and that succeeded. -/
theorem summary_posted_iff (x : Occurrence) :
    (∀ r ∈ x.posted, r.payload = x.summary ∧ ∃ payload info, x.upgraded = some (payload, info) ∧
      payload.invokingChannel ≠ some r.endpoint.channelName) ∧
    (∀ agentId channel,
      (∃ r ∈ x.posted, r.agentId = agentId ∧ r.endpoint = .messages channel) ↔
        x.client.maxRetries ≠ 0 ∧
          ∃ payload info appId, x.upgraded = some (payload, info) ∧ info.appId = some appId ∧
            payload.invokingChannel ≠ some channel ∧ ∃ target ∈ info.procConfig.invTargets,
              target.agentId.getD info.agentId = agentId ∧ target.channelFor appId = channel) ∧
    (x.summary.get? "status" = some (.string "success") ↔
      x.invocation.reachesCommit = true ∧ x.invocation.committed = .ok ()) := by
  refine ⟨fun r hr => ?_, fun agentId channel => ⟨?_, ?_⟩, ?_⟩
  · obtain ⟨payload, info, appId, hupgraded, -, target, n, -, hpost⟩ := mem_posted_iff.mp hr
    obtain ⟨-, hendpoint, hpayload, hchannel⟩ := mem_post hpost
    refine ⟨hpayload, payload, info, hupgraded, ?_⟩
    rw [hendpoint]
    exact hchannel
  · rintro ⟨r, hr, hagent, hendpoint⟩
    obtain ⟨payload, info, appId, hupgraded, happ, target, n, hmem, hpost⟩ := mem_posted_iff.mp hr
    obtain ⟨hagent', hendpoint', -⟩ := mem_post hpost
    obtain ⟨hretries, hinvoking⟩ := exists_mem_post_iff.mp ⟨r, hpost⟩
    have hchannel : target.channelFor appId = channel :=
      Endpoint.messages.inj (hendpoint'.symm.trans hendpoint)
    exact ⟨hretries, payload, info, appId, hupgraded, happ, hchannel ▸ hinvoking, target,
      (List.mem_zipIdx' hmem).2 ▸ List.getElem_mem _, hagent'.symm.trans hagent, hchannel⟩
  · rintro ⟨hretries, payload, info, appId, hupgraded, happ, hinvoking, target, hmem, rfl, rfl⟩
    obtain ⟨n, hn, rfl⟩ := List.mem_iff_getElem.mp hmem
    obtain ⟨r, hpost⟩ := exists_mem_post_iff (n := n).mpr ⟨hretries, hinvoking⟩
    refine ⟨r, mem_posted_iff.mpr ⟨payload, info, appId, hupgraded, happ, _, n, ?_, hpost⟩,
      (mem_post hpost).1, (mem_post hpost).2.1⟩
    exact List.mk_mem_zipIdx_iff_getElem?.mpr (List.getElem?_eq_getElem hn)
  · rw [get?_summary_status, ← dispatch_ok_iff, ← status_eq_success_iff, Option.some.injEq,
      Json.string.injEq]

end Occurrence
end Doover
