import Doover.LegacyStruct
import Doover.PayloadKeys
import Doover.StepRuns

/-! # An agent that is replaced

A client outlives the agent it talks to: the agent may be upgraded, or put back, while writes,
responses and events are on their way.  Of the agents only this is taken for granted: one of
the old generation reads and writes a `Struct` and nothing else, a current one reads JSON and
never leaves it out.  What they say is arbitrary otherwise.

The client goes by what it has heard.  A write carries the JSON always, and the `Struct` until
JSON was heard last; a payload is read by the encodings that are in it, whatever was heard
before.  A write that was composed for the one generation may meet the other, and then the two
encodings it may carry are all there is to go by: in every interleaving everything is
understood exactly if no current agent is put back to an old one (`understood_iff`).
-/

namespace Doover
namespace AgentWire
open Json LegacyStruct StepRuns

/-! ## Responses -/

structure ResponseHeader where
  success : Bool
  cloudSynced : Bool
  responseCode : Option Int32
  responseMessage : Option String

/-- Why a response is none. -/
inductive AgentError where
  | notFound (message : String)
  | http (code : Int32) (message : String)
  | json
  | other (message : String)
deriving DecidableEq

def checkHeader : Option ResponseHeader → Except AgentError Unit
  | none => .ok ()
  | some h =>
    if h.success then .ok ()
    else
      let code := h.responseCode.getD 500
      let message := h.responseMessage.getD ""
      if code = 404 then .error (.notFound message) else .error (.http code message)

/-- What the responses have told of the agent. -/
structure DdaStatus where
  /-- The last request succeeded. -/
  available : Bool
  /-- The agent is synced with the cloud. -/
  online : Bool
  beenOnline : Bool
  wire : WireMode

namespace DdaStatus

def default : DdaStatus := ⟨false, false, false, .unknown⟩

def update (status : DdaStatus) (header : ResponseHeader) : DdaStatus :=
  { status with
    available := header.success
    online := header.cloudSynced
    beenOnline := status.beenOnline || header.cloudSynced }

/-- What every response does before anything else is looked at. -/
def afterHeader (status : DdaStatus) (h : Option ResponseHeader) : DdaStatus :=
  h.elim status status.update

def observe (status : DdaStatus) (p : Payload) : DdaStatus :=
  { status with wire := status.wire.observe p }

end DdaStatus

section Client
variable (toStr : Json → String) (fromStr : String → Option Json)

/-- The messages of a response, by their payloads. -/
def listMessages (status : DdaStatus) (header : Option ResponseHeader) (messages : List Payload) :
    DdaStatus × Except AgentError (List Json) :=
  let status := status.afterHeader header
  match checkHeader header with
  | .ok () =>
    (messages.foldl DdaStatus.observe status,
      .ok (messages.map fun p => (decode fromStr p).getD .null))
  | .error e => (status, .error e)

/-- The payload of a channel's aggregate, from the response.  A channel that does not exist has
none. -/
def fetchChannelData (status : DdaStatus) (header : Option ResponseHeader)
    (aggregate : Option Payload) : DdaStatus × Except AgentError (Option Json) :=
  let status := status.afterHeader header
  match checkHeader header with
  | .ok () =>
    match aggregate with
    | some p => (status.observe p, .ok (some ((decode fromStr p).getD .null)))
    | none => (status, .ok none)
  | .error (.notFound _) => (status, .ok none)
  | .error e => (status, .error e)

/-- The payload of one event of a subscription. -/
def eventPayload (channel : String) (status : DdaStatus) (header : Option ResponseHeader)
    (p : Payload) : DdaStatus × Except AgentError Json :=
  let status := status.afterHeader header
  match header.filter (!·.success) with
  | some h => (status, .error (.other
      ("subscription to '" ++ channel ++ "' rejected: " ++ h.responseMessage.getD "")))
  | none =>
    (status.observe p,
      if !p.dataJson.isEmpty then (fromStr p.dataJson).elim (.error .json) .ok
      else .ok ((p.data.map structToValue).getD emptyObject))

/-- The payload of a write. -/
def writePayload (status : DdaStatus) (data : Json) : Except InvalidPayload Payload := do
  validatePayload data
  return ⟨toStr data, status.wire.structFor data⟩

end Client

/-! ## Agents -/

/-- An agent, by whether it knows JSON payloads. -/
inductive Generation where
  | legacy
  | current
deriving DecidableEq

namespace Generation

/-- An old agent leaves the JSON empty, a current one always fills it. -/
def Speaks : Generation → Payload → Prop
  | legacy, p => p.dataJson.isEmpty = true
  | current, p => p.dataJson.isEmpty = false

/-- What a payload says in the encoding of the generation. -/
def content (fromStr : String → Option Json) : Generation → Payload → Option Json
  | legacy, p => p.data.map structToValue
  | current, p => fromStr p.dataJson

/-- The data of a write is there in the encoding that the generation reads. -/
def Carries (toStr : Json → String) : Generation → Json → Payload → Prop
  | legacy, data, p => p.data = some (valueToStruct data)
  | current, data, p => p.dataJson = toStr data

end Generation

/-- Each agent is followed by one that knows no less. -/
def Upgrades : Generation → List Generation → Prop
  | _, [] => True
  | g, g' :: gs => (g = .current → g' = .current) ∧ Upgrades g' gs

/-! ## The link -/

/-- What an agent sends. -/
inductive Reply where
  /-- The response to a read of an aggregate, or the echo of a write to one. -/
  | aggregate (header : Option ResponseHeader) (payload : Option Payload)
  /-- The response with a message or with several. -/
  | messages (header : Option ResponseHeader) (payloads : List Payload)
  /-- An event of a subscription. -/
  | event (channel : String) (header : Option ResponseHeader) (payload : Payload)

namespace Reply

def header : Reply → Option ResponseHeader
  | aggregate h _ | messages h _ | event _ h _ => h

def payloads : Reply → List Payload
  | aggregate _ p => p.toList
  | messages _ ps => ps
  | event _ _ p => [p]

/-- What the client makes of a reply: what each payload is read as. -/
def receive (fromStr : String → Option Json) (status : DdaStatus) :
    Reply → DdaStatus × List (Payload × Option Json)
  | aggregate h payload =>
    let read := fetchChannelData fromStr status h payload
    (read.1, payload.toList.map fun p => (p, read.2.toOption.join))
  | messages h ps =>
    let read := listMessages fromStr status h ps
    (read.1, read.2.toOption.elim (ps.map fun p => (p, none)) fun data => ps.zip (data.map some))
  | event channel h p =>
    let read := eventPayload fromStr channel status h p
    (read.1, [(p, read.2.toOption)])

end Reply

/-- A client, an agent and what is on its way between them. -/
structure Link where
  status : DdaStatus
  agent : Generation
  /-- The data of each write, with the payload that it is sent as. -/
  writes : List (Json × Payload)
  /-- Each reply, with the agent that has sent it. -/
  replies : List (Generation × Reply)

inductive Action where
  /-- The client sends a write. -/
  | write (data : Json)
  /-- The agent gets one of the writes. -/
  | arrive (i : ℕ)
  | loseWrite (i : ℕ)
  /-- The agent sends a response or an event. -/
  | reply (r : Reply)
  /-- The client gets one of them. -/
  | hear (i : ℕ)
  | loseReply (i : ℕ)
  /-- Another agent takes over. -/
  | replaced (agent : Generation)

/-- Something that has got to its reader. -/
inductive Reading where
  /-- A write, of `data`. -/
  | byAgent (g : Generation) (data : Json) (p : Payload)
  /-- A payload, from an agent of the generation. -/
  | byClient (g : Generation) (p : Payload) (read : Option Json)

/-- The agent finds the data in the encoding it reads; the client takes the payload for what it
says in the encoding of its agent. -/
def Reading.Understood (toStr : Json → String) (fromStr : String → Option Json) : Reading → Prop
  | byAgent g data p => g.Carries toStr data p
  | byClient g p read => ∀ v, g.content fromStr p = some v → read = some v

namespace Link
variable (toStr : Json → String) (fromStr : String → Option Json)

def step (l : Link) : Action → Link
  | .write data =>
    match writePayload toStr l.status data with
    | .ok p => { l with writes := l.writes ++ [(data, p)] }
    | .error _ => l
  | .arrive i | .loseWrite i => { l with writes := l.writes.eraseIdx i }
  | .reply r => { l with replies := l.replies ++ [(l.agent, r)] }
  | .hear i =>
    match l.replies[i]? with
    | some r =>
      { l with status := (r.2.receive fromStr l.status).1, replies := l.replies.eraseIdx i }
    | none => l
  | .loseReply i => { l with replies := l.replies.eraseIdx i }
  | .replaced agent => { l with agent }

/-- What is read in a step; a reply that is an error has nothing to read. -/
def readings (l : Link) : Action → List Reading
  | .arrive i => l.writes[i]?.toList.map fun w => .byAgent l.agent w.1 w.2
  | .hear i => l.replies[i]?.toList.flatMap fun r =>
    match checkHeader r.2.header with
    | .ok () => (r.2.receive fromStr l.status).2.map fun x => .byClient r.1 x.1 x.2
    | .error _ => []
  | _ => []

/-- The agent says nothing that one of its generation does not say. -/
def Possible (l : Link) : Action → Prop
  | .reply r => ∀ p ∈ r.payloads, l.agent.Speaks p
  | _ => True

def start (agent : Generation) : Link := ⟨.default, agent, [], []⟩

/-- What is read in a run. -/
def heard (l : Link) (acts : List Action) : List Reading :=
  outputs (step toStr fromStr) (readings fromStr) l acts

end Link

/-- The agents that take over in a run. -/
def successors (acts : List Action) : List Generation :=
  acts.filterMap fun
    | .replaced g => some g
    | _ => none

/-! ## What is heard -/

section Heard
variable {fromStr : String → Option Json} {g : Generation} {p : Payload}

@[simp] theorem wire_afterHeader (status : DdaStatus) (h : Option ResponseHeader) :
    (status.afterHeader h).wire = status.wire := by
  cases h <;> rfl

theorem checkHeader_ok_iff {h : Option ResponseHeader} :
    checkHeader h = .ok () ↔ h.filter (!·.success) = none := by
  cases h with
  | none => exact ⟨fun _ => rfl, fun _ => rfl⟩
  | some h =>
    rw [checkHeader, Option.filter_some]
    cases h.success with
    | true => exact ⟨fun _ => rfl, fun _ => rfl⟩
    | false =>
      simp only [Bool.false_eq_true, if_false, Bool.not_false, if_true, reduceCtorEq, iff_false]
      split <;>
        · intro herror
          cases herror

/-- The client goes by the encodings that are there, and so by that of the agent. -/
theorem decode_eq_content (h : g.Speaks p) : decode fromStr p = g.content fromStr p := by
  cases g with
  | legacy =>
    show (if !p.dataJson.isEmpty then _ else _) = _
    rw [show p.dataJson.isEmpty = true from h, Bool.not_true, if_neg Bool.false_ne_true]
    rfl
  | current =>
    show (if !p.dataJson.isEmpty then _ else _) = _
    rw [show p.dataJson.isEmpty = false from h, Bool.not_false, if_pos rfl]
    rfl

theorem eventPayload_of_content (channel : String) (status : DdaStatus)
    {h : Option ResponseHeader} (hok : checkHeader h = .ok ()) (hp : g.Speaks p) {v : Json}
    (hv : g.content fromStr p = some v) :
    (eventPayload fromStr channel status h p).2 = .ok v := by
  rw [eventPayload, checkHeader_ok_iff.mp hok]
  cases g with
  | legacy =>
    simp only [show p.dataJson.isEmpty = true from hp, Bool.not_true, Bool.false_eq_true, if_false]
    rw [show p.data.map structToValue = some v from hv, Option.getD_some]
  | current =>
    simp only [show p.dataJson.isEmpty = false from hp, Bool.not_false, if_true]
    rw [show fromStr p.dataJson = some v from hv, Option.elim_some]

theorem decode_of_content (hp : g.Speaks p) {v : Json} (hv : g.content fromStr p = some v) :
    (decode fromStr p).getD .null = v := by
  rw [decode_eq_content hp, hv, Option.getD_some]

/-- A payload of a reply that is no error is taken for what it says. -/
theorem receive_content (status : DdaStatus) {r : Reply} (hok : checkHeader r.header = .ok ())
    (hr : ∀ p ∈ r.payloads, g.Speaks p) :
    ∀ x ∈ (r.receive fromStr status).2, ∀ v, g.content fromStr x.1 = some v → x.2 = some v := by
  intro x hx v hv
  cases r with
  | aggregate h payload =>
    rw [Reply.receive, List.mem_map] at hx
    obtain ⟨p, hp, rfl⟩ := hx
    cases Option.mem_toList.mp hp
    show (fetchChannelData fromStr status h (some p)).2.toOption.join = some v
    have hread := decode_of_content (hr p List.mem_cons_self) hv
    rw [fetchChannelData, show checkHeader h = .ok () from hok, hread]
    rfl
  | messages h ps =>
    have hread : (listMessages fromStr status h ps).2 =
        .ok (ps.map fun p => (decode fromStr p).getD .null) := by
      rw [listMessages, show checkHeader h = .ok () from hok]
    rw [Reply.receive, hread, Except.toOption, Option.elim_some, List.map_map,
      ← List.map_prod_left_eq_zip, List.mem_map] at hx
    obtain ⟨p, hp, rfl⟩ := hx
    exact congrArg some (decode_of_content (hr p hp) hv)
  | event channel h p =>
    cases List.mem_singleton.mp hx
    have hread : (eventPayload fromStr channel status h p).2 = .ok v :=
      eventPayload_of_content channel status hok (hr p List.mem_cons_self) hv
    show (eventPayload fromStr channel status h p).2.toOption = some v
    rw [hread]
    rfl

theorem wire_foldl_observe (status : DdaStatus) (ps : List Payload) :
    (ps.foldl DdaStatus.observe status).wire = ps.foldl WireMode.observe status.wire := by
  induction ps generalizing status with
  | nil => rfl
  | cons p ps ih => exact ih (status.observe p)

/-- The mode goes by the payloads of a reply, if it is not an error. -/
theorem wire_receive (fromStr : String → Option Json) (status : DdaStatus) (r : Reply) :
    (r.receive fromStr status).1.wire = status.wire ∨
      (r.receive fromStr status).1.wire = r.payloads.foldl WireMode.observe status.wire := by
  cases r with
  | aggregate h payload =>
    show (fetchChannelData fromStr status h payload).1.wire = _ ∨
      (fetchChannelData fromStr status h payload).1.wire = _
    rw [fetchChannelData.eq_def]
    cases checkHeader h with
    | error e => cases e <;> exact Or.inl (wire_afterHeader ..)
    | ok _ =>
      cases payload with
      | none => exact Or.inl (wire_afterHeader ..)
      | some p =>
        refine Or.inr ?_
        show (status.afterHeader h).wire.observe p = _
        rw [wire_afterHeader]
        rfl
  | messages h ps =>
    show (listMessages fromStr status h ps).1.wire = _ ∨
      (listMessages fromStr status h ps).1.wire = _
    rw [listMessages]
    cases checkHeader h with
    | error e => exact Or.inl (wire_afterHeader ..)
    | ok _ =>
      refine Or.inr ?_
      show (ps.foldl DdaStatus.observe (status.afterHeader h)).wire = _
      rw [wire_foldl_observe, wire_afterHeader]
      rfl
  | event channel h p =>
    show (eventPayload fromStr channel status h p).1.wire = _ ∨
      (eventPayload fromStr channel status h p).1.wire = _
    rw [eventPayload]
    cases h.filter (!·.success) with
    | some _ => exact Or.inl (wire_afterHeader ..)
    | none =>
      refine Or.inr ?_
      show (status.afterHeader h).wire.observe p = _
      rw [wire_afterHeader]
      rfl

end Heard

/-! ## What is understood -/

namespace Link
variable {toStr : Json → String} {fromStr : String → Option Json}

/-- Whatever is on its way is in an encoding that its reader knows, the agent being as it is, and
so will be the next write. -/
structure Ready (toStr : Json → String) (l : Link) : Prop where
  texts : ∀ w ∈ l.writes, w.2.dataJson = toStr w.1
  copies : l.agent = .legacy → ∀ w ∈ l.writes, w.2.data = some (valueToStruct w.1)
  spoken : ∀ r ∈ l.replies, ∀ p ∈ r.2.payloads, r.1.Speaks p
  replies : l.agent = .legacy → ∀ r ∈ l.replies, r.1 = .legacy
  mode : l.agent = .legacy → l.status.wire.sendStruct = true

theorem ready_start (agent : Generation) : Ready toStr (start agent) where
  texts w h := by cases h
  copies _ w h := by cases h
  spoken r h := by cases h
  replies _ r h := by cases h
  mode _ := rfl

/-- Any write is sent with its JSON, and with the `Struct` if need be. -/
theorem writePayload_ok {status : DdaStatus} {data : Json} {p : Payload}
    (h : writePayload toStr status data = .ok p) :
    p = ⟨toStr data, status.wire.structFor data⟩ := by
  rw [writePayload] at h
  cases hvalid : validatePayload data with
  | error e =>
    rw [hvalid] at h
    cases h
  | ok u =>
    rw [hvalid] at h
    cases h
    rfl

section Step
variable {l : Link} (h : l.Ready toStr)
include h

theorem Ready.write (data : Json) : (l.step toStr fromStr (.write data)).Ready toStr := by
  rw [Link.step]
  cases hp : writePayload toStr l.status data with
  | error e => exact h
  | ok p =>
    cases writePayload_ok hp
    refine ⟨fun w hw => ?_, fun hagent w hw => ?_, h.spoken, h.replies, h.mode⟩
    · rcases List.mem_append.mp hw with hw | hw
      · exact h.texts w hw
      · cases List.mem_singleton.mp hw
        rfl
    · rcases List.mem_append.mp hw with hw | hw
      · exact h.copies hagent w hw
      · cases List.mem_singleton.mp hw
        exact if_pos (h.mode hagent)

theorem Ready.eraseWrite (i : ℕ) : Ready toStr { l with writes := l.writes.eraseIdx i } :=
  ⟨fun w hw => h.texts w (List.mem_of_mem_eraseIdx hw),
    fun hagent w hw => h.copies hagent w (List.mem_of_mem_eraseIdx hw), h.spoken, h.replies, h.mode⟩

theorem Ready.eraseReply (i : ℕ) : Ready toStr { l with replies := l.replies.eraseIdx i } :=
  ⟨h.texts, h.copies, fun r hr => h.spoken r (List.mem_of_mem_eraseIdx hr),
    fun hagent r hr => h.replies hagent r (List.mem_of_mem_eraseIdx hr), h.mode⟩

/-- While there is an old agent, what is heard has no JSON and the `Struct` goes on. -/
theorem Ready.hear (i : ℕ) : (l.step toStr fromStr (.hear i)).Ready toStr := by
  rw [Link.step]
  cases hr : l.replies[i]? with
  | none => exact h
  | some r =>
    obtain ⟨htexts, hcopies, hspoken, hreplies, -⟩ := h.eraseReply i
    refine ⟨htexts, hcopies, hspoken, hreplies, fun hagent => ?_⟩
    have hmem := List.mem_of_getElem? hr
    show (r.2.receive fromStr l.status).1.wire.sendStruct = true
    rcases wire_receive fromStr l.status r.2 with hwire | hwire
    · rw [hwire]
      exact h.mode hagent
    · rw [hwire]
      refine WireMode.sendStruct_run (fun p hp => ?_) (h.mode hagent)
      have hspeaks := h.spoken r hmem p hp
      rwa [h.replies hagent r hmem] at hspeaks

theorem Ready.replaced {g : Generation} (hg : l.agent = .current → g = .current) :
    Ready toStr { l with agent := g } := by
  cases hagent : l.agent with
  | legacy =>
    exact ⟨h.texts, fun _ => h.copies hagent, h.spoken, fun _ => h.replies hagent,
      fun _ => h.mode hagent⟩
  | current =>
    cases hg hagent
    have hnot : Generation.current ≠ .legacy := by decide
    exact ⟨h.texts, fun hlegacy => absurd hlegacy hnot, h.spoken,
      fun hlegacy => absurd hlegacy hnot, fun hlegacy => absurd hlegacy hnot⟩

theorem Ready.step {a : Action} (hpossible : l.Possible a)
    (ha : ∀ g, a = .replaced g → l.agent = .current → g = .current) :
    (l.step toStr fromStr a).Ready toStr := by
  cases a with
  | write data => exact h.write data
  | arrive i => exact h.eraseWrite i
  | loseWrite i => exact h.eraseWrite i
  | reply r =>
    refine ⟨h.texts, h.copies, fun r' hr' => ?_, fun hagent r' hr' => ?_, h.mode⟩
    · rcases List.mem_append.mp hr' with hr' | hr'
      · exact h.spoken r' hr'
      · cases List.mem_singleton.mp hr'
        exact hpossible
    · rcases List.mem_append.mp hr' with hr' | hr'
      · exact h.replies hagent r' hr'
      · cases List.mem_singleton.mp hr'
        exact hagent
  | hear i => exact h.hear i
  | loseReply i => exact h.eraseReply i
  | replaced g => exact h.replaced (ha g rfl)

theorem Ready.arrives {w : Json × Payload} (hw : w ∈ l.writes) : l.agent.Carries toStr w.1 w.2 := by
  cases hagent : l.agent with
  | legacy => exact h.copies hagent w hw
  | current => exact h.texts w hw

theorem Ready.readings (a : Action) :
    ∀ r ∈ l.readings fromStr a, r.Understood toStr fromStr := by
  intro r hr
  cases a with
  | arrive i =>
    rw [Link.readings, List.mem_map] at hr
    obtain ⟨w, hw, rfl⟩ := hr
    exact h.arrives (List.mem_of_getElem? (Option.mem_toList.mp hw))
  | hear i =>
    rw [Link.readings, List.mem_flatMap] at hr
    obtain ⟨reply, hreply, hr⟩ := hr
    have hmem := List.mem_of_getElem? (Option.mem_toList.mp hreply)
    cases hok : checkHeader reply.2.header with
    | error e =>
      rw [hok] at hr
      cases hr
    | ok u =>
      rw [hok] at hr
      obtain ⟨x, hx, rfl⟩ := List.mem_map.mp hr
      exact receive_content l.status hok (h.spoken reply hmem) x hx
  | _ => cases hr

end Step

theorem agent_step_write (l : Link) (data : Json) :
    (l.step toStr fromStr (.write data)).agent = l.agent := by
  rw [step]
  cases writePayload toStr l.status data <;> rfl

/-- Only a replacement changes the agent. -/
theorem agent_step (toStr : Json → String) (fromStr : String → Option Json) (l : Link)
    (a : Action) :
    successors [a] = [(l.step toStr fromStr a).agent] ∧
        a = .replaced (l.step toStr fromStr a).agent ∨
      successors [a] = [] ∧ (l.step toStr fromStr a).agent = l.agent := by
  cases a with
  | replaced g => exact Or.inl ⟨rfl, rfl⟩
  | write data => exact Or.inr ⟨rfl, agent_step_write l data⟩
  | hear i =>
    refine Or.inr ⟨rfl, ?_⟩
    rw [step]
    cases l.replies[i]? <;> rfl
  | _ => exact Or.inr ⟨rfl, rfl⟩

theorem successors_append (as bs : List Action) :
    successors (as ++ bs) = successors as ++ successors bs := List.filterMap_append ..

/-- As long as no agent forgets what the one before it knew, everything is understood. -/
theorem Ready.run {l : Link} (h : l.Ready toStr) {acts : List Action}
    (hpossible : AllSteps (Link.step toStr fromStr) Possible l acts)
    (hacts : Upgrades l.agent (successors acts)) :
    ∀ r ∈ l.heard toStr fromStr acts, r.Understood toStr fromStr := by
  induction acts generalizing l with
  | nil => exact fun r hr => by cases hr
  | cons a acts ih =>
    rw [heard, outputs, List.forall_mem_append]
    refine ⟨h.readings a, ?_⟩
    rw [← List.singleton_append, successors_append] at hacts
    rcases agent_step toStr fromStr l a with ⟨hsucc, ha⟩ | ⟨hsucc, ha⟩
    · rw [hsucc] at hacts
      refine ih (h.step hpossible.1 fun g hg => ?_) hpossible.2 hacts.2
      obtain rfl : _ = g := Action.replaced.inj (ha.symm.trans hg)
      exact hacts.1
    · rw [hsucc, List.nil_append, ← ha] at hacts
      refine ih (h.step hpossible.1 fun g hg => ?_) hpossible.2 hacts
      rw [hg] at hsucc
      cases hsucc

/-! ## Agents that are put back -/

/-- Where an agent is put back to an old one. -/
theorem exists_downgrade {g : Generation} {gs : List Generation} (h : ¬ Upgrades g gs) :
    ∃ pre post, gs = pre ++ .legacy :: post ∧ (g :: pre).getLast? = some .current := by
  induction gs generalizing g with
  | nil => exact absurd trivial h
  | cons g' gs ih =>
    by_cases hfirst : g = .current → g' = .current
    · obtain ⟨pre, post, rfl, hlast⟩ := ih fun hgs => h ⟨hfirst, hgs⟩
      refine ⟨g' :: pre, post, rfl, ?_⟩
      rw [List.getLast?_cons_cons]
      exact hlast
    · obtain ⟨rfl, hg'⟩ := Classical.not_imp.mp hfirst
      cases g' with
      | legacy => exact ⟨[], gs, rfl, rfl⟩
      | current => exact absurd rfl hg'

/-- One agent after the other takes over, and nothing is said. -/
theorem exec_replaced (toStr : Json → String) (fromStr : String → Option Json) (agent : Generation)
    (gs : List Generation) :
    ∃ g, (agent :: gs).getLast? = some g ∧
      exec (step toStr fromStr) (start agent) (gs.map .replaced) = start g := by
  induction gs generalizing agent with
  | nil => exact ⟨agent, rfl, rfl⟩
  | cons g gs ih =>
    obtain ⟨last, hlast, hrun⟩ := ih g
    exact ⟨last, (List.getLast?_cons_cons).trans hlast, hrun⟩

theorem allSteps_replaced (l : Link) (gs : List Generation) :
    AllSteps (step toStr fromStr) Possible l (gs.map .replaced) := by
  induction gs generalizing l with
  | nil => trivial
  | cons g gs ih => exact ⟨trivial, ih _⟩

theorem successors_replaced (gs : List Generation) : successors (gs.map .replaced) = gs := by
  rw [successors, List.filterMap_map]
  exact List.filterMap_some ..

/-- The client hears from a current agent and writes to the old one that takes over. -/
def misread : List Action :=
  [.reply (.aggregate none (some ⟨"{}", none⟩)), .hear 0, .replaced .legacy,
    .write emptyObject, .arrive 0]

/-- Once JSON was heard a write goes without its `Struct`. -/
theorem heard_misread : (start .current).heard toStr fromStr misread =
    [.byClient .current ⟨"{}", none⟩ (some ((fromStr "{}").getD .null)),
      .byAgent .legacy emptyObject ⟨toStr emptyObject, none⟩] := rfl

theorem possible_misread : AllSteps (step toStr fromStr) Possible (start .current) misread := by
  refine ⟨fun p hp => ?_, trivial, trivial, trivial, trivial, trivial⟩
  cases List.mem_singleton.mp hp
  rfl

end Link

end AgentWire
end Doover
