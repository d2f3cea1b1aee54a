import Doover.DataClient

/-! # The guard against recursion

An invocation triggered by a channel must not write to it, or it triggers itself again;
only a write to `tag_values` of this app's own tags is let through, and the event it
causes is dropped by `isTagValuesSelfLoop`.

`guard_covers_iff` says which operations of a client keep this rule, however the server routes
paths.  Three kinds do not: an update of a message is not checked at all, a payload that is no
object passes the check on `tag_values`, and the check compares the name as it was given, so
another name that the server takes for the invoking channel passes too.  A payload of the second
kind, and the empty object, has no key of this app, so its event is not dropped either
(`closes_loop_iff`).
-/

namespace Doover
open Json DataClient

/-- The channel that triggered the invocation. -/
def EventPayload.invokingChannel : EventPayload → Option String
  | .messageCreate channelName _ | .aggregateUpdate channelName _ => some channelName
  -- a write to the alarm's channel evaluates the alarm again
  | .alarmTrigger channelName => some channelName
  | _ => none

/-- The event a write causes; an update of a message causes none that is filtered. -/
def HttpRequest.event (req : HttpRequest) : Option EventPayload :=
  match req.endpoint with
  | .aggregate channel => some (.aggregateUpdate channel req.payload)
  | .messages channel => some (.messageCreate channel req.payload)
  | .message _ _ => none

/-! ## Operations that write -/

/-- The operations that write to a channel. -/
inductive WriteOp where
  | updateChannelAggregateHttp (channel : String) (data : Json) (opts : AggregateOptions)
      (agentId : Option ℕ)
  | createMessageHttp (channel : String) (data : Json) (timestampMs : Option UInt64)
      (agentId : Option ℕ)
  | updateMessageHttp (channel : String) (id : ℕ) (data : Json) (opts : UpdateMessageOptions)
      (agentId : Option ℕ)
  | pingConnectionAt (args : PingConnectionArgs) (now : UInt64)
  | updateConnectionConfig (config : Json) (agentId : Option ℕ)
  | sendNotification (notification : Notification) (agentId : Option ℕ)
  | publishUiSchema (appKey : String) (schema : Json) (clear : Bool)
  | updateChannelAggregate (channel : String) (data : Json) (opts : AggregateOptions)
  | createMessage (channel : String) (data : Json)
  | updateMessage (channel : String) (id : ℕ) (data : Json) (opts : UpdateMessageOptions)

namespace WriteOp

/-- The call the operation is. -/
def run (c : DataClient) (answers : ServerAnswers) : WriteOp → Call Unit
  | .updateChannelAggregateHttp channel data opts agentId => do
    let _ ← c.updateChannelAggregateHttp channel data opts agentId (answers 0)
  | .createMessageHttp channel data timestampMs agentId => do
    let _ ← c.createMessageHttp channel data timestampMs agentId (answers 0)
  | .updateMessageHttp channel id data opts agentId => do
    let _ ← c.updateMessageHttp channel id data opts agentId (answers 0)
  | .pingConnectionAt args now => c.pingConnectionAt args now answers
  | .updateConnectionConfig config agentId => c.updateConnectionConfig config agentId answers
  | .sendNotification notification agentId => do
    let _ ← c.sendNotification notification agentId (answers 0)
  | .publishUiSchema appKey schema clear => c.publishUiSchema appKey schema clear (answers 0)
  | .updateChannelAggregate channel data opts =>
    c.updateChannelAggregate channel data opts (answers 0)
  | .createMessage channel data => do
    let _ ← c.createMessage channel data (answers 0)
  | .updateMessage channel id data opts => c.updateMessage channel id data opts (answers 0)

/-- The name it writes to. -/
def channelName : WriteOp → String
  | .updateChannelAggregateHttp channel _ _ _ | .createMessageHttp channel _ _ _
  | .updateMessageHttp channel _ _ _ _ | .updateChannelAggregate channel _ _
  | .createMessage channel _ | .updateMessage channel _ _ _ => channel
  | .pingConnectionAt _ _ | .updateConnectionConfig _ _ => CONNECTION_CHANNEL
  | .sendNotification _ _ => NOTIFICATIONS_CHANNEL
  | .publishUiSchema _ _ _ => "ui_state"

/-- What its requests are to, in their order. -/
def targets : WriteOp → List Target
  | .updateChannelAggregateHttp channel _ opts _ | .updateChannelAggregate channel _ opts =>
    [(if opts.replaceData then .put else .patch, .aggregate channel)]
  | .createMessageHttp channel _ _ _ | .createMessage channel _ => [(.post, .messages channel)]
  | .updateMessageHttp channel id _ opts _ | .updateMessage channel id _ opts =>
    [(if opts.replaceData then .put else .patch, .message channel id)]
  | .pingConnectionAt _ _ | .updateConnectionConfig _ _ =>
    [(.post, .messages CONNECTION_CHANNEL), (.patch, .aggregate CONNECTION_CHANNEL)]
  | .sendNotification _ _ => [(.post, .messages NOTIFICATIONS_CHANNEL)]
  | .publishUiSchema _ _ _ => [(.patch, .aggregate "ui_state")]

/-- What it writes. -/
def payload : WriteOp → Json
  | .updateChannelAggregateHttp _ data _ _ | .createMessageHttp _ data _ _
  | .updateMessageHttp _ _ data _ _ | .updateChannelAggregate _ data _
  | .createMessage _ data | .updateMessage _ _ data _ => data
  | .pingConnectionAt args now => args.payload now
  | .updateConnectionConfig config _ => .ofList [("config", config)]
  | .sendNotification notification _ => notification.toJson
  | .publishUiSchema appKey schema _ =>
    .ofList [("state", .ofList [("children", .ofList [(appKey, schema)])])]

def agentId : WriteOp → Option ℕ
  | .updateChannelAggregateHttp _ _ _ agentId | .createMessageHttp _ _ _ agentId
  | .updateMessageHttp _ _ _ _ agentId | .updateConnectionConfig _ agentId
  | .sendNotification _ agentId => agentId
  | .pingConnectionAt args _ => args.agentId
  | _ => none

def isMessageUpdate : WriteOp → Bool
  | .updateMessageHttp _ _ _ _ _ | .updateMessage _ _ _ _ => true
  | _ => false

/-- What it is given is not refused for itself: a notification has a message. -/
def Valid : WriteOp → Prop
  | .sendNotification notification _ => notification.validate = .ok ()
  | _ => True

variable {c : DataClient} {answers : ServerAnswers}

theorem writesTo_publishConnection {payload : Json} {agentId : Option ℕ} :
    WritesTo c agentId
      [(.post, .messages CONNECTION_CHANNEL), (.patch, .aggregate CONNECTION_CHANNEL)] payload
      (c.publishConnection payload agentId answers) := by
  have hpair : ∀ {a b : Target}, [a] ⊆ [a, b] ∧ [b] ⊆ [a, b] := by simp
  refine ((writesTo_createMessageHttp none).mono hpair.1).bind fun _ => ?_
  exact ((writesTo_updateChannelAggregateHttp .default).mono hpair.2).bind fun _ => writesTo_pure _

/-- **What an operation writes.**  Every request of it has its payload and one of its targets,
below its agent. -/
theorem writesTo_run (op : WriteOp) :
    WritesTo c op.agentId op.targets op.payload (op.run c answers) := by
  cases op with
  | updateChannelAggregateHttp channel data opts agentId =>
    exact (writesTo_updateChannelAggregateHttp opts).bind fun _ => writesTo_pure _
  | createMessageHttp channel data timestampMs agentId =>
    exact (writesTo_createMessageHttp timestampMs).bind fun _ => writesTo_pure _
  | updateMessageHttp channel id data opts agentId =>
    exact (writesTo_updateMessageHttp id opts).bind fun _ => writesTo_pure _
  | pingConnectionAt args now => exact writesTo_publishConnection
  | updateConnectionConfig config agentId => exact writesTo_publishConnection
  | sendNotification notification agentId =>
    refine WritesTo.bind (WritesTo.bind (writesTo_ofExcept _) fun _ => ?_)
      fun _ => writesTo_pure _
    exact writesTo_createMessageHttp none
  | publishUiSchema appKey schema clear =>
    have htarget : ∀ opts : AggregateOptions, opts.replaceData = false →
        [((if opts.replaceData then .put else .patch, .aggregate "ui_state") : Target)] ⊆
          [(.patch, .aggregate "ui_state")] := by
      intro opts hopts
      rw [hopts]
      exact List.Subset.refl _
    refine ((writesTo_updateChannelAggregateHttp _).mono (htarget _ ?_)).bind
      fun _ => writesTo_pure _
    split <;> rfl
  | updateChannelAggregate channel data opts =>
    exact (writesTo_updateChannelAggregateHttp _).bind fun _ => writesTo_pure _
  | createMessage channel data =>
    refine WritesTo.bind (WritesTo.bind (writesTo_createMessageHttp none) fun _ => ?_)
      fun _ => writesTo_pure _
    exact writesTo_pure _
  | updateMessage channel id data opts =>
    exact (writesTo_updateMessageHttp id opts).bind fun _ => writesTo_pure _

/-- An operation is refused when it makes the check and that fails, when the client is mute, and
when what it is given is not valid. -/
theorem refused_run {op : WriteOp}
    (h : ((op.isMessageUpdate = false ∧
      ∃ e, c.checkInvokingChannel op.channelName op.payload = .error e) ∨ c.Mute op.agentId) ∨
        ¬ op.Valid) :
    (op.run c answers).Refused := by
  rcases h with h | hinvalid
  · have hchecked := h.imp_left And.right
    have hupdate : op.isMessageUpdate = true → c.Mute op.agentId := by
      intro hop
      refine h.resolve_left fun hleft => ?_
      rw [hop] at hleft
      cases hleft.1
    cases op with
    | updateChannelAggregateHttp channel data opts agentId =>
      exact (refused_updateChannelAggregateHttp hchecked).bind _
    | createMessageHttp channel data timestampMs agentId =>
      exact (refused_createMessageHttp hchecked).bind _
    | updateMessageHttp channel id data opts agentId =>
      exact (refused_updateMessageHttp (hupdate rfl)).bind _
    | pingConnectionAt args now => exact (refused_createMessageHttp hchecked).bind _
    | updateConnectionConfig config agentId => exact (refused_createMessageHttp hchecked).bind _
    | sendNotification notification agentId =>
      refine Emitting.Refused.bind (Emitting.refused_ofExcept_bind fun u _ => ?_) _
      exact refused_createMessageHttp hchecked
    | publishUiSchema appKey schema clear =>
      exact (refused_updateChannelAggregateHttp hchecked).bind _
    | updateChannelAggregate channel data opts =>
      exact (refused_updateChannelAggregateHttp hchecked).bind _
    | createMessage channel data =>
      exact Emitting.Refused.bind ((refused_createMessageHttp hchecked).bind _) _
    | updateMessage channel id data opts => exact (refused_updateMessageHttp (hupdate rfl)).bind _
  · cases op with
    | sendNotification notification agentId =>
      refine Emitting.Refused.bind (Emitting.refused_ofExcept_bind fun u hu => ?_) _
      exact absurd hu hinvalid
    | _ => exact absurd trivial hinvalid

/-- Otherwise it sends something. -/
theorem sends_run {op : WriteOp} (hmute : ¬ c.Mute op.agentId) (hvalid : op.Valid)
    (hcheck : op.isMessageUpdate = true ∨
      c.checkInvokingChannel op.channelName op.payload = .ok ()) :
    ∃ r, r ∈ (op.run c answers).emitted := by
  have hbind : ∀ {α β : Type} {x : Call α} {f : α → Call β}, (∃ r, r ∈ x.emitted) →
      ∃ r, r ∈ (x >>= f).emitted := fun ⟨r, hr⟩ => ⟨r, Emitting.mem_emitted_bind hr⟩
  cases op with
  | updateMessageHttp channel id data opts agentId => exact hbind (sends_updateMessageHttp hmute)
  | updateMessage channel id data opts => exact hbind (sends_updateMessageHttp hmute)
  | updateChannelAggregateHttp channel data opts agentId =>
    exact hbind (sends_updateChannelAggregateHttp (hcheck.resolve_left Bool.false_ne_true) hmute)
  | createMessageHttp channel data timestampMs agentId =>
    exact hbind (sends_createMessageHttp (hcheck.resolve_left Bool.false_ne_true) hmute)
  | pingConnectionAt args now =>
    exact hbind (sends_createMessageHttp (hcheck.resolve_left Bool.false_ne_true) hmute)
  | updateConnectionConfig config agentId =>
    exact hbind (sends_createMessageHttp (hcheck.resolve_left Bool.false_ne_true) hmute)
  | sendNotification notification agentId =>
    refine hbind ?_
    have hvalid' : notification.validate = .ok () := hvalid
    rw [DataClient.sendNotification, hvalid', Emitting.ofExcept_ok_bind]
    exact sends_createMessageHttp (hcheck.resolve_left Bool.false_ne_true) hmute
  | publishUiSchema appKey schema clear =>
    exact hbind (sends_updateChannelAggregateHttp (hcheck.resolve_left Bool.false_ne_true) hmute)
  | updateChannelAggregate channel data opts =>
    exact hbind (sends_updateChannelAggregateHttp (hcheck.resolve_left Bool.false_ne_true) hmute)
  | createMessage channel data =>
    exact hbind (hbind (sends_createMessageHttp (hcheck.resolve_left Bool.false_ne_true) hmute))

end WriteOp

/-! ## The rule -/

namespace DataClient
variable {c : DataClient} {channel : String} {data : Json}

/-- The channel may be written: it is another one than the invoking channel, or `tag_values`,
with an object that has no key but the app's. -/
def Permitted (c : DataClient) (channel : String) (data : Json) : Prop :=
  c.invokingChannel = some channel →
    channel = TAG_CHANNEL_NAME ∧ ∃ m, data = .object m ∧ ∀ k ∈ m.keys, some k = c.appKey

/-- The name is not the invoking channel's, or is `tag_values`, with no key of another app in
the data. -/
def LetsThrough (c : DataClient) (channel : String) (data : Json) : Prop :=
  c.invokingChannel = some channel →
    channel = TAG_CHANNEL_NAME ∧ ∀ m, data = .object m → ∀ k ∈ m.keys, some k = c.appKey

/-- What the check lets through. -/
theorem checkInvokingChannel_ok_iff :
    c.checkInvokingChannel channel data = .ok () ↔ c.LetsThrough channel data := by
  rw [checkInvokingChannel, LetsThrough]
  by_cases hinvoking : c.invokingChannel = some channel
  · rw [if_neg (not_not_intro hinvoking), forall_prop_of_true hinvoking]
    by_cases htag : channel = TAG_CHANNEL_NAME
    · rw [if_neg (not_not_intro htag), and_iff_right htag]
      cases data with
      | object m =>
        have hkeys : (Json.object m).asObject.any (fun m =>
            m.keys.any fun k => decide (some k ≠ c.appKey)) = true ↔
            ¬ ∀ k ∈ m.keys, some k = c.appKey := by
          simp [asObject]
        simp only [Json.object.injEq, forall_eq']
        split
        · rename_i hforeign
          exact iff_of_false (by simp) (hkeys.mp hforeign)
        · rename_i hown
          exact iff_of_true rfl (not_not.mp fun hnot => hown (hkeys.mpr hnot))
      | _ => exact iff_of_true rfl (by simp)
    · rw [if_pos htag]
      exact iff_of_false (by simp) fun h => htag h.1
  · rw [if_pos hinvoking]
    exact iff_of_true rfl fun h => absurd h hinvoking

/-- The operation would write what it must not: a request of it goes to a channel that may not
be written with its payload. -/
def Violates (c : DataClient) (route : Routing) (op : WriteOp) : Prop :=
  ∃ agentId, c.resolveAgentId op.agentId = .ok agentId ∧ ∃ target ∈ op.targets, ∃ channel,
    route.channel target agentId = some channel ∧ ¬ c.Permitted channel op.payload

end DataClient

/-- The guard covers an operation: every request it sends writes what may be written, and an
operation that would write what it must not is refused. -/
structure GuardCovers (route : Routing) (c : DataClient) (op : WriteOp)
    (answers : ServerAnswers) : Prop where
  sent : ∀ r ∈ (op.run c answers).emitted, ∀ channel,
    route.channel r.target r.agentId = some channel → c.Permitted channel r.payload
  refused : c.Violates route op → (op.run c answers).Refused

/-- The operation gets past the guard: it can be sent, it would write what it must not, and it
is an update of a message or has a name and a payload that are let through. -/
structure Exposed (route : Routing) (c : DataClient) (op : WriteOp) : Prop where
  canSend : c.maxRetries ≠ 0 ∧ op.Valid
  violates : c.Violates route op
  unchecked : op.isMessageUpdate = true ∨ c.LetsThrough op.channelName op.payload

theorem not_mute_iff {c : DataClient} {agentId : Option ℕ} :
    ¬ c.Mute agentId ↔ c.maxRetries ≠ 0 ∧ (agentId.or c.agentId).isSome = true := by
  rw [Mute, not_or, and_comm, resolveAgentId]
  refine and_congr_right fun _ => ?_
  cases agentId.or c.agentId with
  | none => exact iff_of_false (not_not_intro ⟨_, rfl⟩) Bool.false_ne_true
  | some id => exact iff_of_true (by simp) rfl

/-- An operation that would write what it must not is refused, unless it gets past the guard. -/
theorem refused_of_violates {route : Routing} {c : DataClient} {op : WriteOp}
    {answers : ServerAnswers} (hviolates : c.Violates route op) (h : ¬ Exposed route c op) :
    (op.run c answers).Refused := by
  by_cases hvalid : op.Valid
  · refine WriteOp.refused_run (.inl ?_)
    by_cases hmute : c.Mute op.agentId
    · exact .inr hmute
    · refine .inl ⟨?_, ?_⟩
      · rw [← Bool.not_eq_true]
        exact fun hop => h ⟨⟨(not_mute_iff.mp hmute).1, hvalid⟩, hviolates, .inl hop⟩
      · cases hcheck : c.checkInvokingChannel op.channelName op.payload with
        | error e => exact ⟨e, rfl⟩
        | ok u =>
          have hlets := checkInvokingChannel_ok_iff.mp hcheck
          exact absurd ⟨⟨(not_mute_iff.mp hmute).1, hvalid⟩, hviolates, .inr hlets⟩ h
  · exact WriteOp.refused_run (.inr hvalid)

/-- The guard covers exactly the operations that do not get past it. -/
theorem guardCovers_iff {route : Routing} {c : DataClient} {op : WriteOp}
    {answers : ServerAnswers} : GuardCovers route c op answers ↔ ¬ Exposed route c op := by
  constructor
  · rintro ⟨-, hrefused⟩ ⟨⟨hmax, hvalid⟩, hviolates, hunchecked⟩
    obtain ⟨agentId, hagent⟩ : ∃ agentId, c.resolveAgentId op.agentId = .ok agentId :=
      hviolates.imp fun _ h => h.1
    have hmute : ¬ c.Mute op.agentId := by
      rintro (⟨e, he⟩ | hzero)
      · cases hagent.symm.trans he
      · exact hmax hzero
    obtain ⟨r, hr⟩ : ∃ r, r ∈ (op.run c answers).emitted :=
      WriteOp.sends_run hmute hvalid (hunchecked.imp_right checkInvokingChannel_ok_iff.mpr)
    exact (hrefused hviolates).not_mem r hr
  · intro h
    refine ⟨fun r hr channel hchannel => ?_, fun hviolates => refused_of_violates hviolates h⟩
    obtain ⟨hagent, htarget, hpayload⟩ := op.writesTo_run r hr
    rw [hpayload]
    by_contra hnot
    have hviolates : c.Violates route op :=
      ⟨r.agentId, hagent, r.target, htarget, channel, hchannel, hnot⟩
    exact (refused_of_violates hviolates h).not_mem r hr

/-- **What the guard covers.**  However the server routes paths, in a sequence of operations of
an invocation each keeps the rule exactly when none gets past the guard. -/
theorem guard_covers_iff (route : Routing) (c : DataClient)
    (ops : List (WriteOp × ServerAnswers)) :
    (∀ op ∈ ops, GuardCovers route c op.1 op.2) ↔ ∀ op ∈ ops, ¬ Exposed route c op.1 :=
  forall₂_congr fun _ _ => guardCovers_iff

/-! ### Names as the server takes them -/

/-- The segments of a path as a URL has them: `.` is dropped, and `..` takes the segment before
it along. -/
def segments (path : String) : List String :=
  ((path.toList.splitOn '/').map String.ofList).foldl
    (fun segments s => if s = "." then segments else if s = ".." then segments.dropLast
      else segments ++ [s]) []

/-- The channel that has an endpoint at this path. -/
def namedRoute : Routing := fun _ path =>
  match segments path with
  | ["", "agents", _, "channels", channel, "aggregate"] => some channel
  | ["", "agents", _, "channels", channel, "messages"] => some channel
  | ["", "agents", _, "channels", channel, "messages", _] => some channel
  | _ => none

/-- An update of a message on the channel that triggered the invocation is sent, and so is a
write of its aggregate by another spelling of its name. -/
theorem message_update_unguarded :
    let c : DataClient := ⟨"https://api", some 7, some "app", some "levels", 3⟩
    let update : WriteOp := .updateMessage "levels" 42 (.bool true) ⟨false, false⟩
    let spelled : WriteOp := .updateChannelAggregate "./levels" (.bool true) .default
    let answers : ServerAnswers := fun _ _ => .response 200 "" (.ok none)
    (update.run c answers).emitted =
        [⟨.patch, 7, .message "levels" 42, .ofList [("data", .bool true)], []⟩] ∧
      (spelled.run c answers).emitted =
        [⟨.patch, 7, .aggregate "./levels", .bool true, [("suppress_response", "true")]⟩] ∧
      ¬ GuardCovers namedRoute c update answers ∧ ¬ GuardCovers namedRoute c spelled answers ∧
      ¬ ∀ op ∈ [(update, answers), (spelled, answers)], GuardCovers namedRoute c op.1 op.2 := by
  intro c update spelled answers
  have hupdate : (update.run c answers).emitted =
      [⟨.patch, 7, .message "levels" 42, .ofList [("data", .bool true)], []⟩] := rfl
  have hspelled : (spelled.run c answers).emitted =
      [⟨.patch, 7, .aggregate "./levels", .bool true, [("suppress_response", "true")]⟩] := rfl
  have hlevels : ∀ data, ¬ c.Permitted "levels" data := fun data h =>
    absurd (h rfl).1 (show "levels" ≠ "tag_values" by decide)
  have hbreaks : ∀ {op : WriteOp} {r : HttpRequest}, (op.run c answers).emitted = [r] →
      namedRoute.channel r.target r.agentId = some "levels" →
        ¬ GuardCovers namedRoute c op answers := fun hsent hroute h =>
    hlevels _ (h.sent _ (hsent ▸ List.mem_singleton_self _) _ hroute)
  have hnot : ¬ GuardCovers namedRoute c update answers := hbreaks hupdate (by decide +kernel)
  have hnot' : ¬ GuardCovers namedRoute c spelled answers := hbreaks hspelled (by decide +kernel)
  exact ⟨hupdate, hspelled, hnot, hnot', fun hall => hnot (hall _ List.mem_cons_self)⟩

/-! ## Writes of an invocation by `tag_values` -/

/-- The client during an invocation: its trigger's channel and the app's key are set. -/
def DataClient.forInvocation (c : DataClient) (trigger : EventPayload) (appKey : String) :
    DataClient :=
  { c with invokingChannel := trigger.invokingChannel, appKey := some appKey }

/-- The event of a write is dropped as the app's own. -/
def Dropped (appKey : String) (req : HttpRequest) : Prop :=
  ∃ ev, req.event = some ev ∧ isTagValuesSelfLoop ev appKey = true

/-- No write of the data to `tag_values` that is let through triggers the app again. -/
def ClosesLoop (c : DataClient) (appKey : String) (data : Json) : Prop :=
  (∀ opts agentId answers, ∀ r ∈ (c.updateChannelAggregateHttp TAG_CHANNEL_NAME data opts agentId
      answers).emitted, Dropped appKey r) ∧
    ∀ timestampMs agentId answers, ∀ r ∈ (c.createMessageHttp TAG_CHANNEL_NAME data timestampMs
      agentId answers).emitted, Dropped appKey r

theorem dropped_iff {appKey : String} {req : HttpRequest}
    (h : req.endpoint = .aggregate TAG_CHANNEL_NAME ∨ req.endpoint = .messages TAG_CHANNEL_NAME) :
    Dropped appKey req ↔ ∃ v, req.payload.get? appKey = some v := by
  have hloop : ∀ data : Json, (data.asObject.any fun m => m.containsKey appKey) = true ↔
      ∃ v, data.get? appKey = some v := by
    intro data
    cases data with
    | object m => exact IndexMap.containsKey_iff
    | _ => exact iff_of_false Bool.false_ne_true (by simp [get?])
  rw [← hloop, Dropped, HttpRequest.event]
  rcases h with hreq | hreq <;> rw [hreq] <;> simp [isTagValuesSelfLoop, TAG_CHANNEL_NAME]

/-- The loop is closed by data that does not pass the check, or has a key of the app. -/
theorem closesLoop_iff_check {c : DataClient} {appKey : String} {data : Json} :
    ClosesLoop c appKey data ↔
      (c.maxRetries ≠ 0 → c.checkInvokingChannel TAG_CHANNEL_NAME data = .ok () →
        ∃ v, data.get? appKey = some v) := by
  constructor
  · intro hcloses hmax hcheck
    have hmute : ¬ c.Mute (some 0) := not_mute_iff.mpr ⟨hmax, rfl⟩
    obtain ⟨r, hr⟩ : ∃ r, r ∈ (c.updateChannelAggregateHttp TAG_CHANNEL_NAME data .default (some 0)
        fun _ => .response 200 "" (.ok none)).emitted := sends_updateChannelAggregateHttp hcheck hmute
    obtain ⟨-, htarget, hpayload⟩ := writesTo_updateChannelAggregateHttp _ r hr
    rw [← hpayload]
    have hendpoint : r.endpoint = .aggregate TAG_CHANNEL_NAME :=
      congrArg Prod.snd (List.mem_singleton.mp htarget)
    exact (dropped_iff (.inl hendpoint)).mp (hcloses.1 _ _ _ r hr)
  · intro h
    have hown : ∀ {α : Type} {x : Call α} {agentId : Option ℕ} {targets : List Target},
        WritesTo c agentId targets data x →
        ((∃ e, c.checkInvokingChannel TAG_CHANNEL_NAME data = .error e) ∨ c.Mute agentId →
          x.Refused) →
        ∀ r ∈ x.emitted, r.target ∈ targets ∧ ∃ v, r.payload.get? appKey = some v := by
      intro α x agentId targets hwrites hrefused r hr
      obtain ⟨-, htarget, hpayload⟩ := hwrites r hr
      refine ⟨htarget, ?_⟩
      rw [hpayload]
      refine h (fun hmax => (hrefused (.inr (.inr hmax))).not_mem r hr) ?_
      cases hcheck : c.checkInvokingChannel TAG_CHANNEL_NAME data with
      | error e => exact absurd hr ((hrefused (.inl ⟨e, hcheck⟩)).not_mem r)
      | ok u => rfl
    refine ⟨fun opts agentId answers r hr => ?_, fun timestampMs agentId answers r hr => ?_⟩
    · obtain ⟨htarget, hkey⟩ := hown (writesTo_updateChannelAggregateHttp opts)
        refused_updateChannelAggregateHttp r hr
      exact (dropped_iff (.inl (congrArg Prod.snd (List.mem_singleton.mp htarget)))).mpr hkey
    · obtain ⟨htarget, hkey⟩ := hown (writesTo_createMessageHttp timestampMs)
        refused_createMessageHttp r hr
      exact (dropped_iff (.inr (congrArg Prod.snd (List.mem_singleton.mp htarget)))).mpr hkey

/-- **When an invocation by `tag_values` cannot trigger itself.**  The writes of the data
that the check lets through cause only events that are dropped, exactly when the data is an
object with a key, or the client makes no try at all. -/
theorem closes_loop_iff (c : DataClient) (trigger : EventPayload) (appKey : String) (data : Json)
    (h : trigger.invokingChannel = some TAG_CHANNEL_NAME) :
    ClosesLoop (c.forInvocation trigger appKey) appKey data ↔
      c.maxRetries = 0 ∨ ∃ k v, data.get? k = some v := by
  have hcheck : (c.forInvocation trigger appKey).checkInvokingChannel TAG_CHANNEL_NAME data =
      .ok () ↔ _ := checkInvokingChannel_ok_iff
  have hinvoking : (c.forInvocation trigger appKey).invokingChannel = some TAG_CHANNEL_NAME := h
  rw [LetsThrough, forall_prop_of_true hinvoking, and_iff_right rfl] at hcheck
  rw [closesLoop_iff_check, hcheck]
  have hkeys : ((∀ m, data = .object m → ∀ k ∈ m.keys, some k = some appKey) →
      ∃ v, data.get? appKey = some v) ↔ ∃ k v, data.get? k = some v := by
    constructor
    · intro hown
      by_contra hnone
      obtain ⟨v, hv⟩ := hown fun m hm k hk => by
        obtain ⟨v, hv⟩ := IndexMap.mem_keys_iff.mp hk
        exact absurd ⟨k, v, by rw [hm]; exact hv⟩ hnone
      exact hnone ⟨appKey, v, hv⟩
    · rintro ⟨k, v, hv⟩ hown
      cases data with
      | object m =>
        obtain rfl := Option.some.inj (hown m rfl k (IndexMap.mem_keys_iff.mpr ⟨v, hv⟩))
        exact ⟨v, hv⟩
      | _ => cases hv
  show (c.maxRetries ≠ 0 → _) ↔ _
  rw [← hkeys, ← or_iff_not_imp_left]
  rfl

/-- The equivalence for an invocation by a message on `tag_values`. -/
theorem closes_loop_iff_message :
    ClosesLoop ((DataClient.mk "https://api" (some 7) none none 3).forInvocation
        (.messageCreate "tag_values" .null) "app") "app" (.ofList [("app", .bool true)]) ↔
      3 = 0 ∨ ∃ k v, (Json.ofList [("app", .bool true)]).get? k = some v :=
  closes_loop_iff ⟨"https://api", some 7, none, none, 3⟩ (.messageCreate "tag_values" .null) "app" _
    rfl

/-- The empty object is written to `tag_values`, and its event triggers the app again. -/
theorem empty_write_triggers_again :
    let c := (DataClient.mk "https://api" (some 7) none none 3).forInvocation
      (.aggregateUpdate "tag_values" (.object .empty)) "app"
    c.checkInvokingChannel "tag_values" (.object .empty) = .ok () ∧
      (c.updateChannelAggregateHttp "tag_values" (.object .empty) .default none
        fun _ => .response 200 "" (.ok none)).emitted =
          [⟨.patch, 7, .aggregate "tag_values", .object .empty, []⟩] ∧
      isTagValuesSelfLoop (.aggregateUpdate "tag_values" (.object .empty)) "app" = false ∧
      ¬ ClosesLoop c "app" (.object .empty) := by
  intro c
  have hsent : (c.updateChannelAggregateHttp "tag_values" (.object .empty) .default none
      fun _ => .response 200 "" (.ok none)).emitted =
        [⟨.patch, 7, .aggregate "tag_values", .object .empty, []⟩] := rfl
  refine ⟨rfl, hsent, rfl, fun hcloses => ?_⟩
  obtain ⟨ev, hev, hloop⟩ := hcloses.1 _ _ _ _ (hsent ▸ List.mem_singleton_self _)
  cases hev
  cases hloop

end Doover
