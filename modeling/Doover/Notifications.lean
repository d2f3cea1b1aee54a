import Doover.DataClient
import Doover.HubIsolation
import Doover.SchemaAgreement

/-! # Declared notifications

An application declares the notifications it can send.  The derive macro checks the
declarations when the application is built; the schema of them is exported and read by the
site; the device sends them.  Device and site name a notification by a topic, which the
device builds from its declaration and the site from the schema, for the install the
schema is filed under.

What was declared can be sent, by every install whose key is a segment of a topic and
unless the message is overridden by a blank one.  A topic that the site assembles is the
topic of what this install sends under this declaration and of nothing else
(`silenced_iff`).

`debug` is how a text is quoted in an error.
-/

namespace Doover
open Json

/-! ## Severities and policies -/

namespace NotificationSeverity

def wire : NotificationSeverity → String
  | .trace => "Trace"
  | .debug => "Debug"
  | .info => "Info"
  | .warn => "Warn"
  | .critical => "Critical"

/-- `to_ascii_lowercase`. -/
def lower (s : List Char) : List Char := s.map Char.toLower

end NotificationSeverity

inductive NotificationPolicy where
  | default
  | optIn
deriving DecidableEq

def NotificationPolicy.wire : NotificationPolicy → String
  | .default => "default"
  | .optIn => "opt-in"

/-! ## Topics -/

def isSegmentStart (c : Char) : Bool := c.isLower || c.isDigit

/-- `^[a-z0-9][a-z0-9._-]*$`. -/
def isTopicSegment (value : String) : Bool :=
  value.toList.head?.any isSegmentStart &&
    value.toList.all fun c => isSegmentStart c || c ∈ ['.', '_', '-']

def validateTopicSegment (debug : String → String) (name value : String) :
    Except DooverError Unit :=
  if isTopicSegment value then .ok ()
  else .error ⟨"InvalidPayload", "invalid payload: notification topic " ++ name ++
    " must match ^[a-z0-9][a-z0-9._-]*$, got " ++ debug value⟩

/-- `dev/applications/<policy>/<app_key>/<event>`. -/
def applicationTopic (policy appKey event : String) : String :=
  "dev/applications/" ++ policy ++ "/" ++ appKey ++ "/" ++ event

/-- The topic of a notification of an install. -/
def NotificationTopic.application (debug : String → String) (appKey event : String)
    (policy : NotificationPolicy) : Except DooverError String := do
  validateTopicSegment debug "app_key" appKey
  validateTopicSegment debug "event" event
  .ok (applicationTopic policy.wire appKey event)

/-! ## Declarations -/

structure NotificationDecl where
  event : String
  message : String
  displayName : Option String
  description : Option String
  severity : NotificationSeverity
  title : Option String
  policy : NotificationPolicy

/-- Unicode's case mappings. -/
structure CaseMaps where
  upper : Char → List Char
  lower : List Char → List Char

def humanise (maps : CaseMaps) (name : String) : String :=
  let spaced := trim (name.toList.map fun c => if c = '_' || c = '-' then ' ' else c)
  match spaced with
  | [] => ""
  | first :: rest => String.ofList (maps.upper first ++ maps.lower rest)

namespace NotificationDecl

/-- The schema entry.  It has no topic, since that needs the key of the install. -/
def toSchema (maps : CaseMaps) (d : NotificationDecl) : Json :=
  .ofList ([("event", .string d.event),
    ("display_name", .string (d.displayName.getD (humanise maps d.event))),
    ("message", .string d.message),
    ("severity", .string d.severity.wire),
    ("policy", .string d.policy.wire)] ++
    (d.description.map fun description => ("description", .string description)).toList ++
    (d.title.map fun title => ("title", .string title)).toList)

def topic (debug : String → String) (d : NotificationDecl) (appKey : String) :
    Except DooverError String :=
  NotificationTopic.application debug appKey d.event d.policy

end NotificationDecl

/-- The schema of the declared notifications, by event. -/
def notificationsSchema (maps : CaseMaps) (declarations : List NotificationDecl) : Json :=
  .ofList (declarations.map fun d => (d.event, d.toSchema maps))

/-! ## The derive macro -/

/-- A field of the struct of notifications, with the options of its attribute. -/
structure NotificationField where
  ident : String
  event : Option String
  message : Option String
  displayName : Option String
  severity : Option String
  title : Option String
  policy : Option String
  docComment : Option String

namespace NotificationField
variable (debug : String → String)

def declaredSeverity : Option String → Except String NotificationSeverity
  | none => .ok .info
  | some s =>
    let key := String.ofList (NotificationSeverity.lower s.toList)
    if key = "trace" then .ok .trace
    else if key = "debug" then .ok .debug
    else if key = "info" then .ok .info
    else if key ∈ ["warn", "warning"] then .ok .warn
    else if key ∈ ["critical", "error", "fatal", "crit"] then .ok .critical
    else .error ("unknown notification severity `" ++ key ++ "`")

def declaredPolicy : Option String → Except String NotificationPolicy
  | none => .ok .default
  | some s =>
    if s = "default" then .ok .default
    else if s ∈ ["opt_in", "opt-in"] then .ok .optIn
    else .error ("unknown notification policy `" ++ s ++ "`; expected `default` or `opt_in`")

/-- One field, after those with the events `seen`. -/
def expand (seen : List String) (f : NotificationField) : Except String NotificationDecl :=
  let event := f.event.getD f.ident
  if !isTopicSegment event then
    .error ("notification event name must match ^[a-z0-9][a-z0-9._-]*$, got " ++ debug event)
  else if event ∈ seen then .error ("duplicate notification event name " ++ debug event)
  else
    match f.message with
    | none => .error "#[notification(message = \"...\")] is required"
    | some message =>
      if (trim message.toList).isEmpty then .error "notification message must not be empty"
      else do
        let severity ← declaredSeverity f.severity
        let policy ← declaredPolicy f.policy
        .ok ⟨event, message, f.displayName, f.docComment, severity, f.title, policy⟩

/-- `expand_notifications`: the declarations of a struct, or the first error in it. -/
def expandAll (seen : List String) : List NotificationField →
    Except String (List NotificationDecl)
  | [] => .ok []
  | f :: fields => do
    let d ← f.expand debug seen
    let rest ← expandAll (seen ++ [d.event]) fields
    .ok (d :: rest)

end NotificationField

def expandNotifications (debug : String → String) (fields : List NotificationField) :
    Except String (List NotificationDecl) :=
  NotificationField.expandAll debug [] fields

/-! ## Sending -/

/-- A declared notification about to be sent, with what is overridden. -/
structure PendingNotification where
  decl : NotificationDecl
  message : Option String
  title : Option String
  severity : Option NotificationSeverity

section Sending
variable (debug : String → String)

def PendingNotification.build (p : PendingNotification) (appKey : String) :
    Except DooverError Notification := do
  let topic ← p.decl.topic debug appKey
  .ok {
    message := p.message.getD p.decl.message
    title := p.title.or p.decl.title
    severity := some (p.severity.getD p.decl.severity)
    topic := some topic }

/-- `send_notification`, up to the message it creates. -/
def sendNotification (n : Notification) : Except DooverError Notification := do
  n.validate
  .ok n

/-- `notify`. -/
def notify (appKey : String) (p : PendingNotification) : Except DooverError Notification := do
  sendNotification (← p.build debug appKey)

end Sending

/-! ## The reader of a schema -/

/-- The topic that the site assembles for an event, of the install the schema is filed
under. -/
def assembledTopic (appKey : String) (schema : Json) (event : String) : Option String := do
  let entry ← schema.get? event
  let event ← (entry.get? "event").bind asStr
  let policy ← (entry.get? "policy").bind asStr
  some (applicationTopic policy appKey event)

/-! ## Topics are told apart -/

theorem slash_not_mem_segment {s : String} (h : isTopicSegment s = true) : '/' ∉ s.toList := by
  intro hmem
  have hall := (Bool.and_eq_true_iff.mp h).2
  have hslash := List.all_eq_true.mp hall '/' hmem
  exact absurd hslash (by decide)

theorem slash_not_mem_wire (policy : NotificationPolicy) : '/' ∉ policy.wire.toList := by
  cases policy with
  | default => exact fun h => absurd h (by decide)
  | optIn => exact fun h => absurd h (by decide)

theorem wire_inj {p q : NotificationPolicy} (h : p.wire = q.wire) : p = q := by
  cases p <;> cases q <;> first | rfl | exact absurd h (by decide)

theorem toList_joined (root a b c : String) :
    (root ++ a ++ "/" ++ b ++ "/" ++ c).toList =
      root.toList ++ (a.toList ++ '/' :: (b.toList ++ '/' :: c.toList)) := by
  have hslash : ("/" : String).toList = ['/'] := rfl
  simp only [String.toList_append, hslash, List.append_assoc, List.cons_append,
    List.nil_append]

theorem toList_applicationTopic (policy appKey event : String) :
    (applicationTopic policy appKey event).toList =
      "dev/applications/".toList ++
        (policy.toList ++ '/' :: (appKey.toList ++ '/' :: event.toList)) :=
  toList_joined "dev/applications/" policy appKey event

/-- **A topic names its policy, install and event.**  The key of one of the two installs may
be any text. -/
theorem applicationTopic_inj {p q : NotificationPolicy} {a b e f : String}
    (he : isTopicSegment e = true) (hf : isTopicSegment f = true)
    (h : applicationTopic p.wire a e = applicationTopic q.wire b f) : p = q ∧ a = b ∧ e = f := by
  have hlist := congrArg String.toList h
  rw [toList_applicationTopic, toList_applicationTopic, List.append_cancel_left_eq] at hlist
  obtain ⟨hpolicy, hrest⟩ :=
    SubscriptionHub.append_cons_inj (slash_not_mem_wire p) (slash_not_mem_wire q) hlist
  -- the event is what comes after the last slash
  have hreverse := congrArg List.reverse hrest
  simp only [List.reverse_append, List.reverse_cons, List.append_assoc,
    List.singleton_append] at hreverse
  obtain ⟨hevent, happ⟩ := SubscriptionHub.append_cons_inj
    (fun hmem => slash_not_mem_segment he (List.mem_reverse.mp hmem))
    (fun hmem => slash_not_mem_segment hf (List.mem_reverse.mp hmem)) hreverse
  exact ⟨wire_inj (String.toList_inj.mp hpolicy),
    String.toList_inj.mp (List.reverse_injective happ),
    String.toList_inj.mp (List.reverse_injective hevent)⟩

/-! ## What the macro accepts -/

section Derive
variable {debug : String → String}

/-- A declaration that can be sent. -/
structure Sendable (d : NotificationDecl) : Prop where
  event : isTopicSegment d.event = true
  message : (trim d.message.toList).isEmpty = false

namespace NotificationField

theorem expand_ok {seen : List String} {f : NotificationField} {d : NotificationDecl}
    (h : f.expand debug seen = .ok d) : Sendable d ∧ d.event ∉ seen := by
  rw [expand] at h
  split at h
  · cases h
  rename_i hevent
  split at h
  · cases h
  rename_i hseen
  split at h
  · cases h
  rename_i message hmessage
  split at h
  · cases h
  rename_i hblank
  obtain ⟨severity, -, h⟩ := bind_eq_ok h
  obtain ⟨policy, -, h⟩ := bind_eq_ok h
  obtain rfl := Except.ok.inj h
  refine ⟨⟨?_, ?_⟩, hseen⟩
  · simpa using hevent
  · simpa using hblank

/-- What the fields after `seen` declare. -/
structure Declares (seen : List String) (declarations : List NotificationDecl) : Prop where
  sendable : ∀ d ∈ declarations, Sendable d
  new : ∀ d ∈ declarations, d.event ∉ seen
  nodup : (declarations.map (·.event)).Nodup

theorem expandAll_ok {seen : List String} {fields : List NotificationField}
    {declarations : List NotificationDecl}
    (h : expandAll debug seen fields = .ok declarations) : Declares seen declarations := by
  induction fields generalizing seen declarations with
  | nil =>
    obtain rfl := Except.ok.inj h
    exact ⟨fun d hd => absurd hd List.not_mem_nil, fun d hd => absurd hd List.not_mem_nil, .nil⟩
  | cons f fields ih =>
    obtain ⟨d, hd, h⟩ := bind_eq_ok h
    obtain ⟨rest, hrest, h⟩ := bind_eq_ok h
    obtain rfl := Except.ok.inj h
    obtain ⟨hsendable, hnew⟩ := expand_ok hd
    have hdeclares := ih hrest
    refine ⟨List.forall_mem_cons.mpr ⟨hsendable, hdeclares.sendable⟩,
      List.forall_mem_cons.mpr ⟨hnew, fun e he hseen => ?_⟩, ?_⟩
    · exact hdeclares.new e he (List.mem_append_left _ hseen)
    · refine List.nodup_cons.mpr ⟨fun hmem => ?_, hdeclares.nodup⟩
      obtain ⟨e, he, heq⟩ := List.mem_map.mp hmem
      refine hdeclares.new e he (List.mem_append_right _ ?_)
      rw [heq]
      exact List.mem_singleton_self _

end NotificationField

/-- **What the macro accepts** can be sent, and no two of its events are the same. -/
theorem expandNotifications_ok {fields : List NotificationField}
    {declarations : List NotificationDecl}
    (h : expandNotifications debug fields = .ok declarations) :
    (∀ d ∈ declarations, Sendable d) ∧ (declarations.map (·.event)).Nodup :=
  have hdeclares := NotificationField.expandAll_ok h
  ⟨hdeclares.sendable, hdeclares.nodup⟩

end Derive

/-! ## The site and the device -/

section Agree
variable {debug : String → String} (maps : CaseMaps)

theorem get?_notificationsSchema {declarations : List NotificationDecl}
    (hnodup : (declarations.map (·.event)).Nodup) {d : NotificationDecl}
    (hd : d ∈ declarations) :
    (notificationsSchema maps declarations).get? d.event = some (d.toSchema maps) := by
  have hentries : ((declarations.map fun d => (d.event, d.toSchema maps)).map Prod.fst).Nodup := by
    rwa [List.map_map]
  rw [notificationsSchema, Json.ofList, get?_object]
  refine IndexMap.mem_entries (e := (d.event, d.toSchema maps)).mp ?_
  rw [IndexMap.entries_ofList hentries]
  exact List.mem_map_of_mem hd

/-- What the site reads in an entry. -/
theorem get?_toSchema (d : NotificationDecl) :
    (d.toSchema maps).get? "event" = some (.string d.event) ∧
      (d.toSchema maps).get? "policy" = some (.string d.policy.wire) := by
  rw [NotificationDecl.toSchema, Json.ofList, get?_object, get?_object]
  have hmem : ∀ (l : List (String × Json)) (e : String × Json), (l.map Prod.fst).Nodup → e ∈ l →
      (IndexMap.ofList l).get? e.1 = some e.2 := by
    intro l e hnodup he
    refine IndexMap.mem_entries.mp ?_
    rwa [IndexMap.entries_ofList hnodup]
  have hkeys : (([("event", Json.string d.event),
      ("display_name", .string (d.displayName.getD (humanise maps d.event))),
      ("message", .string d.message), ("severity", .string d.severity.wire),
      ("policy", .string d.policy.wire)] ++
      (d.description.map fun description => ("description", Json.string description)).toList ++
      (d.title.map fun title => ("title", Json.string title)).toList).map Prod.fst).Nodup := by
    cases d.description <;> cases d.title <;> simp
  constructor
  · exact hmem _ ("event", .string d.event) hkeys (by simp)
  · exact hmem _ ("policy", .string d.policy.wire) hkeys (by simp)

/-- The topic that the site assembles for a declared event. -/
theorem assembledTopic_eq {declarations : List NotificationDecl}
    (hnodup : (declarations.map (·.event)).Nodup) {d : NotificationDecl}
    (hd : d ∈ declarations) (appKey : String) :
    assembledTopic appKey (notificationsSchema maps declarations) d.event =
      some (applicationTopic d.policy.wire appKey d.event) := by
  obtain ⟨hevent, hpolicy⟩ := get?_toSchema maps d
  rw [assembledTopic, get?_notificationsSchema maps hnodup hd]
  show ((d.toSchema maps).get? "event" >>= asStr) >>= _ = _
  rw [hevent, hpolicy]
  rfl

theorem application_ok_iff {appKey event topic : String} {policy : NotificationPolicy}
    (hevent : isTopicSegment event = true) :
    NotificationTopic.application debug appKey event policy = .ok topic ↔
      isTopicSegment appKey = true ∧ topic = applicationTopic policy.wire appKey event := by
  rw [NotificationTopic.application, validateTopicSegment, validateTopicSegment, if_pos hevent]
  by_cases happ : isTopicSegment appKey = true
  · rw [if_pos happ]
    exact ⟨fun h => ⟨happ, (Except.ok.inj h).symm⟩, fun h => congrArg Except.ok h.2.symm⟩
  · rw [if_neg happ]
    refine iff_of_false (fun h => ?_) fun h => happ h.1
    cases h

/-- The message that a send creates. -/
def PendingNotification.created (p : PendingNotification) (appKey : String) : Notification where
  message := p.message.getD p.decl.message
  title := p.title.or p.decl.title
  severity := some (p.severity.getD p.decl.severity)
  topic := some (applicationTopic p.decl.policy.wire appKey p.decl.event)

/-- The message is not overridden by a blank one. -/
def PendingNotification.Readable (p : PendingNotification) : Prop :=
  ∀ message, p.message = some message → (trim message.toList).isEmpty = false

/-- **One send.** -/
theorem notify_ok_iff {p : PendingNotification} (hp : Sendable p.decl) {appKey : String}
    {n : Notification} : notify debug appKey p = .ok n ↔
      (isTopicSegment appKey = true ∧ p.Readable) ∧ n = p.created appKey := by
  have hreadable : (trim (p.created appKey).message.toList).isEmpty = false ↔ p.Readable := by
    rw [PendingNotification.created, PendingNotification.Readable]
    cases p.message with
    | none => exact iff_of_true hp.message fun message h => by cases h
    | some message =>
      refine ⟨fun h m hm => ?_, fun h => h message rfl⟩
      rwa [← Option.some.inj hm]
  rw [notify, PendingNotification.build, NotificationDecl.topic]
  cases htopic : NotificationTopic.application debug appKey p.decl.event p.decl.policy with
  | error e =>
    refine iff_of_false (fun h => ?_) fun h => ?_
    · cases h
    · have hok : NotificationTopic.application debug appKey p.decl.event p.decl.policy = .ok _ :=
        (application_ok_iff hp.event).mpr ⟨h.1.1, rfl⟩
      cases hok.symm.trans htopic
  | ok topic =>
    obtain ⟨happ, rfl⟩ := (application_ok_iff hp.event).mp htopic
    show sendNotification (p.created appKey) = .ok n ↔ _
    rw [and_iff_right happ, ← hreadable, sendNotification, Notification.validate]
    cases (trim (p.created appKey).message.toList).isEmpty with
    | true =>
      refine iff_of_false (fun h => ?_) fun h => ?_
      · cases h
      · cases h.1
    | false => exact ⟨fun h => ⟨rfl, (Except.ok.inj h).symm⟩, fun h => congrArg Except.ok h.2.symm⟩

/-- **What a subscriber silences.**  Every install's notifications were accepted by the
macro.  A send creates a message exactly when the key of the install is a segment of a
topic and the message is not overridden by a blank one; the topic that the site assembles
for a declared event of an install is the topic of the messages sent by that install under
that declaration, and of no others. -/
theorem silenced_iff (declared : String → List NotificationDecl)
    (hderive : ∀ a, ∃ fields, expandNotifications debug fields = .ok (declared a))
    {appKey a : String} {d : NotificationDecl} {p : PendingNotification}
    (hd : d ∈ declared appKey) (hp : p.decl ∈ declared a) :
    ((∃ n, notify debug a p = .ok n) ↔ isTopicSegment a = true ∧ p.Readable) ∧
      ∀ n, notify debug a p = .ok n →
        (n.topic = assembledTopic appKey (notificationsSchema maps (declared appKey)) d.event ↔
          a = appKey ∧ p.decl = d) := by
  obtain ⟨fields, hfields⟩ := hderive appKey
  obtain ⟨hsendable, hnodup⟩ := expandNotifications_ok hfields
  obtain ⟨fieldsA, hfieldsA⟩ := hderive a
  have hsend := (expandNotifications_ok hfieldsA).1 p.decl hp
  refine ⟨⟨fun ⟨n, hn⟩ => ((notify_ok_iff hsend).mp hn).1,
    fun h => ⟨_, (notify_ok_iff hsend).mpr ⟨h, rfl⟩⟩⟩, fun n hn => ?_⟩
  obtain ⟨-, rfl⟩ := (notify_ok_iff hsend).mp hn
  rw [assembledTopic_eq maps hnodup hd]
  show some _ = some _ ↔ _
  rw [Option.some.injEq]
  constructor
  · intro h
    obtain ⟨-, rfl, hevent⟩ := applicationTopic_inj hsend.event (hsendable d hd).event h
    exact ⟨rfl, List.inj_on_of_nodup_map hnodup hp hd hevent⟩
  · rintro ⟨rfl, rfl⟩
    rfl

end Agree

/-! ## Two pumps that declare notifications -/

def lowBatteryField : NotificationField :=
  ⟨"low_battery", none, some "The battery is low", none, some "warn", none, none, none⟩

def highLevelField : NotificationField :=
  ⟨"high_level", none, some "The level is high", none, some "critical", none, none, none⟩

def lowBattery : NotificationDecl :=
  ⟨"low_battery", "The battery is low", none, none, .warn, none, .default⟩

def highLevel : NotificationDecl :=
  ⟨"high_level", "The level is high", none, none, .critical, none, .default⟩

def asciiMaps : CaseMaps := ⟨fun c => [c.toUpper], fun s => s.map Char.toLower⟩

/-- The first pump declares both. -/
def pumpDeclared (appKey : String) : List NotificationDecl :=
  if appKey = "pump_1" then [lowBattery, highLevel] else [lowBattery]

theorem pumpDeclared_derived (a : String) :
    ∃ fields, expandNotifications id fields = .ok (pumpDeclared a) := by
  rw [pumpDeclared]
  split
  · exact ⟨[lowBatteryField, highLevelField], rfl⟩
  · exact ⟨[lowBatteryField], rfl⟩

/-- It is sent, on the topic that the site assembles for it: not on that of the other
notification of the pump, nor on that of the other pump's notification. -/
theorem lowBattery_silenced :
    (∃ n, notify id "pump_1" ⟨lowBattery, none, none, none⟩ = .ok n) ∧
      ∀ n, notify id "pump_1" ⟨lowBattery, none, none, none⟩ = .ok n →
        n.topic = assembledTopic "pump_1"
          (notificationsSchema asciiMaps (pumpDeclared "pump_1")) lowBattery.event ∧
        n.topic ≠ assembledTopic "pump_1"
          (notificationsSchema asciiMaps (pumpDeclared "pump_1")) highLevel.event ∧
        n.topic ≠ assembledTopic "pump_2"
          (notificationsSchema asciiMaps (pumpDeclared "pump_2")) lowBattery.event := by
  have hlow : ∀ a, lowBattery ∈ pumpDeclared a := fun a => by
    rw [pumpDeclared]
    split <;> exact List.mem_cons_self
  have hhigh : highLevel ∈ pumpDeclared "pump_1" := List.mem_cons_of_mem _ List.mem_cons_self
  have hp : (PendingNotification.mk lowBattery none none none).decl ∈ pumpDeclared "pump_1" :=
    hlow "pump_1"
  have hown := silenced_iff asciiMaps pumpDeclared pumpDeclared_derived (hlow "pump_1") hp
  have hevent := silenced_iff asciiMaps pumpDeclared pumpDeclared_derived hhigh hp
  have hpump := silenced_iff asciiMaps pumpDeclared pumpDeclared_derived (hlow "pump_2") hp
  refine ⟨hown.1.mpr ⟨rfl, fun message h => ?_⟩, fun n hn => ⟨?_, fun h => ?_, fun h => ?_⟩⟩
  · cases h
  · exact (hown.2 n hn).mpr ⟨rfl, rfl⟩
  · have hsame : lowBattery.event = highLevel.event :=
      congrArg NotificationDecl.event ((hevent.2 n hn).mp h).2
    exact absurd hsame (by decide)
  · exact absurd ((hpump.2 n hn).mp h).1 (by decide)

end Doover
