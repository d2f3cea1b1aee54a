import Doover.ConfigSchema
import Doover.RpcTasks
import Doover.UiPositions

/-! # UI elements and their documents

Each element of an app's UI writes a document: the keys that all elements have, then those
of its kind.  A key that is not set is left out.  Interactions come with the keys of a
command slot; without a value of its own the slot refers to the command of the element's
name.  A container writes the documents of its children under `children`, keyed by name
and in declaration order, so that of two children of one name the later stands in the
place of the earlier.

`toString` is the compact text of a value.
-/

namespace Doover
open Json

/-- Give the keys their values, those that have one. -/
def insertSlots (m : IndexMap String Json) (slots : List (String × Option Json)) :
    IndexMap String Json :=
  slots.foldl (fun m slot => insertSome m slot.1 slot.2) m

namespace Ui

/-! ## Values -/

/-- A value slot of an element. -/
inductive UiValue where
  | missing
  | lit (v : Json)
  | tagRef (name : String) (tagType : Option String) (default : Option Json) (live : Bool)
  | cmdsRef (s : String)

section Values
variable (toString : Json → String)

/-- `$tag.app().<name>[:<type>[:<default>]]`. -/
def tagRefLookup (name : String) (tagType : Option String) (default : Option Json) : String :=
  let result := "$tag.app()." ++ name
  let result := result ++ (tagType.map (":" ++ ·)).getD ""
  match default with
  | none => result
  | some default =>
    result ++ (if tagType.isNone then ":string" else "") ++ ":" ++ toString default

def UiValue.isLive : UiValue → Bool
  | .tagRef _ _ _ live => live
  | _ => false

def UiValue.toJson : UiValue → Option Json
  | .missing => none
  | .lit v => some v
  | .tagRef name tagType default _ => some (.string (tagRefLookup toString name tagType default))
  | .cmdsRef s => some (.string s)

/-- Python's `str`. -/
def pythonStr : Json → String
  | .null => "None"
  | .bool true => "True"
  | .bool false => "False"
  | .string s => s
  | other => toString other

end Values

/-! ## Support types -/

structure Range where
  label : Option String
  min : Option Number
  max : Option Number
  colour : String
  showOnGraph : Bool

def Range.toJson (r : Range) : Json :=
  .object (insertSlots .empty [
    ("min", some ((r.min.map .number).getD .null)),
    ("max", some ((r.max.map .number).getD .null)),
    ("colour", some (.string r.colour)),
    ("show_on_graph", some (.bool r.showOnGraph)),
    ("label", (r.label.filter (!·.isEmpty)).map .string)])

structure Threshold where
  label : String
  value : Number
  colour : String

def Threshold.toJson (t : Threshold) : Json :=
  .object (insertSlots .empty [
    ("label", some (.string t.label)),
    ("value", some (.number t.value)),
    ("colour", some (.string t.colour))])

/-- One series of a plot. -/
structure Series where
  name : String
  displayName : String
  value : UiValue
  dataType : String
  active : Option Bool
  colour : Option String
  icon : Option String
  sharedAxis : Option Json
  units : Option String
  stepLabels : Option (List String)
  range : Option (Json × Json)
  ranges : Option (List Range)
  thresholds : Option (List Threshold)

/-- A missing value and a null one have no `lookup`. -/
def Series.toJson (toString : Json → String) (s : Series) : Json :=
  let lookup := match s.value with
    | .missing | .lit .null => none
    | value => value.toJson toString
  .object (insertSlots .empty [
    ("name", some (.string s.name)),
    ("displayString", some (.string s.displayName)),
    ("dataType", some (.string s.dataType)),
    ("lookup", lookup),
    ("active", s.active.map .bool),
    ("colour", s.colour.map .string),
    ("icon", s.icon.map .string),
    ("sharedAxis", s.sharedAxis),
    ("units", s.units.map .string),
    ("stepLabels", s.stepLabels.map fun labels => .array (labels.map .string)),
    ("range", s.range.map fun r => .ofList [("min", r.1), ("max", r.2)]),
    ("ranges", s.ranges.map fun rs => .array (rs.map Range.toJson)),
    ("thresholds", s.thresholds.map fun ts => .array (ts.map Threshold.toJson)),
    ("live", if s.value.isLive then some (.bool true) else none)])

/-- One choice of a `Select`. -/
structure SelectOption where
  name : String
  displayName : String

def SelectOption.toJson (o : SelectOption) : Json :=
  .object (insertSlots .empty [
    ("name", some (.string o.name)),
    ("displayString", some (.string o.displayName)),
    ("type", some (.string "uiElement"))])

structure AuditConfig where
  required : Option Bool
  label : Option String
  placeholder : Option String

def AuditConfig.toJson (a : AuditConfig) : Json :=
  .object (insertSlots .empty [
    ("required", a.required.map .bool),
    ("label", a.label.map .string),
    ("placeholder", a.placeholder.map .string)])

inductive Audit where
  | flag (b : Bool)
  | config (a : AuditConfig)

structure ConfirmDialog where
  title : Option String
  subtitle : Option String
  warningReason : Option String
  colour : Option String
  helpText : Option String
  icon : Option String
  audit : Option Audit

def ConfirmDialog.toJson (d : ConfirmDialog) : Json :=
  .object (insertSlots .empty [
    ("title", d.title.map .string),
    ("subtitle", d.subtitle.map .string),
    ("warningReason", d.warningReason.map .string),
    ("colour", d.colour.map .string),
    ("helpText", d.helpText.map .string),
    ("icon", d.icon.map .string),
    ("audit", d.audit.map fun
      | .flag b => .bool b
      | .config a => a.toJson)])

/-! ## What elements have in common -/

def sanitizeDisplayName (name : String) : String :=
  String.ofList (name.toList.filterMap fun c =>
    if c = ' ' then some '_'
    else if c.isAlphanum || c = '_' then some c.toLower
    else none)

/-- `validate_element_name`, which panics on an invalid name. -/
def validElementName (name : String) : Bool :=
  !name.isEmpty && name.toList.all fun c => c.isAlphanum || c = '_'

structure ElementCommon where
  name : String
  displayName : String
  isAvailable : Option Json := none
  helpStr : Option String := none
  verboseStr : Option String := none
  showActivity : Option Bool := none
  form : Option String := none
  graphic : Option String := none
  layout : Option String := none
  componentUrl : Option String := none
  position : Position := .unset
  conditions : Option Json := none
  hidden : Option Json := none
  units : Option String := none
  icon : Option String := none
  colour : Option String := none

/-- The element of a display name, whose name is what remains of it. -/
def ElementCommon.new (displayName : String) (showActivity : Option Bool) :
    Option ElementCommon :=
  let name := sanitizeDisplayName displayName
  if validElementName name then
    some { name, displayName, showActivity, hidden := some (.bool false) }
  else none

theorem isAlphanum_toLower {c : Char} (h : c.isAlphanum = true) :
    c.toLower.isAlphanum = true := by
  unfold Char.toLower
  split
  · rename_i hupper
    have hlow : 65 ≤ c.val.toNat := UInt32.le_iff_toNat_le.mp hupper.1
    have hhigh : c.val.toNat ≤ 90 := UInt32.le_iff_toNat_le.mp hupper.2
    have hdiff : ('a'.val - 'A'.val).toNat = 32 := rfl
    refine Bool.or_eq_true_iff.mpr (.inl (Bool.or_eq_true_iff.mpr (.inr ?_)))
    refine Bool.and_eq_true_iff.mpr ⟨decide_eq_true (UInt32.le_iff_toNat_le.mpr ?_),
      decide_eq_true (UInt32.le_iff_toNat_le.mpr ?_)⟩
    · show 97 ≤ (c.val + ('a'.val - 'A'.val)).toNat
      rw [UInt32.toNat_add, hdiff]
      omega
    · show (c.val + ('a'.val - 'A'.val)).toNat ≤ 122
      rw [UInt32.toNat_add, hdiff]
      omega
  · exact h

/-- What is left of a display name is a name, unless nothing is left. -/
theorem validElementName_sanitize (displayName : String) :
    validElementName (sanitizeDisplayName displayName) =
      !(sanitizeDisplayName displayName).isEmpty := by
  have hchars : (sanitizeDisplayName displayName).toList.all
      (fun c => c.isAlphanum || c = '_') = true := by
    rw [sanitizeDisplayName, String.toList_ofList, List.all_eq_true]
    intro c hc
    obtain ⟨d, -, hd⟩ := List.mem_filterMap.mp hc
    split at hd
    · obtain rfl := Option.some.inj hd
      rfl
    · split at hd
      · rename_i hkept
        obtain rfl := Option.some.inj hd
        rcases Bool.or_eq_true_iff.mp hkept with halnum | hword
        · rw [isAlphanum_toLower halnum]
          rfl
        · rw [of_decide_eq_true hword]
          rfl
      · cases hd
  rw [validElementName, hchars, Bool.and_true]

def ElementCommon.baseSlots (c : ElementCommon) (ty : String) : List (String × Option Json) := [
  ("name", some (.string c.name)),
  ("type", some (.string ty)),
  ("displayString", some (.string c.displayName)),
  ("isAvailable", c.isAvailable),
  ("helpString", c.helpStr.map .string),
  ("verboseString", c.verboseStr.map .string),
  ("showActivity", c.showActivity.map .bool),
  ("form", c.form.map .string),
  ("graphic", c.graphic.map .string),
  ("layout", c.layout.map .string),
  ("componentUrl", c.componentUrl.map .string),
  ("position", c.position.value.map ofI64),
  ("conditions", c.conditions),
  ("hidden", c.hidden),
  ("units", c.units.map .string),
  ("icon", c.icon.map .string),
  ("colour", c.colour.map .string)]

def ElementCommon.baseJson (c : ElementCommon) (ty : String) : IndexMap String Json :=
  insertSlots .empty (c.baseSlots ty)

inductive Confirm where
  | flag (b : Bool)
  | dialog (d : ConfirmDialog)

structure InteractionCommon where
  element : ElementCommon
  value : UiValue := .missing
  default : Option Json := none
  requiresConfirm : Option Confirm := none
  globalInteraction : Option Bool := none
  commandTimeoutMs : Option ℤ := none
  commandPendingTimeoutMs : Option ℤ := none
  commandRetryTimeoutMs : Option ℤ := none
  direct : Option Bool := none

def InteractionCommon.new (displayName : String) : Option InteractionCommon :=
  (ElementCommon.new displayName none).map fun element => { element }

section Interactions
variable (toString : Json → String)

/-- The value of the command slot. -/
def InteractionCommon.current (i : InteractionCommon) : Json :=
  match i.value.toJson toString with
  | some v => v
  | none =>
    let s := "$cmds.app()." ++ i.element.name
    match i.default with
    | none => .string s
    | some default => .string (s ++ "::" ++ pythonStr toString default)

def InteractionCommon.slots (i : InteractionCommon) : List (String × Option Json) := [
  ("currentValue", some (i.current toString)),
  ("requiresConfirm", i.requiresConfirm.map fun
    | .flag b => .bool b
    | .dialog d => d.toJson),
  ("global", i.globalInteraction.map .bool),
  ("commandTimeout", i.commandTimeoutMs.map ofI64),
  ("commandPendingTimeout", i.commandPendingTimeoutMs.map ofI64),
  ("commandRetryTimeout", i.commandRetryTimeoutMs.map ofI64),
  ("direct", i.direct.map .bool),
  ("default", i.default)]

def InteractionCommon.interactionJson (i : InteractionCommon) (ty : String) :
    IndexMap String Json :=
  insertSlots (i.element.baseJson ty) (i.slots toString)

/-! ## Interactions -/

structure Button where
  interaction : InteractionCommon
  disabled : Option Bool
  labelString : Option String

def Button.elementJson (b : Button) : IndexMap String Json :=
  insertSlots (b.interaction.interactionJson toString "uiButton") [
    ("disabled", b.disabled.map .bool),
    ("labelString", b.labelString.map .string)]

structure Switch where
  interaction : InteractionCommon

def Switch.elementJson (s : Switch) : IndexMap String Json :=
  s.interaction.interactionJson toString "uiSwitch"

structure Slider where
  interaction : InteractionCommon
  minVal : Number
  maxVal : Number
  stepSize : Number
  dualSlider : Bool
  inverted : Bool
  colours : Option String

def Slider.elementJson (s : Slider) : IndexMap String Json :=
  insertSlots (s.interaction.interactionJson toString "uiSlider") [
    ("min", some (.number s.minVal)),
    ("max", some (.number s.maxVal)),
    ("stepSize", some (.number s.stepSize)),
    ("dualSlider", some (.bool s.dualSlider)),
    ("isInverted", some (.bool s.inverted)),
    ("colours", s.colours.map .string)]

structure Select where
  interaction : InteractionCommon
  options : List SelectOption

def Select.elementJson (s : Select) : IndexMap String Json :=
  insertSlots (s.interaction.interactionJson toString "uiSelect") [
    ("options", some (.ofList (s.options.map fun o => (o.name, o.toJson))))]

structure WarningIndicator where
  interaction : InteractionCommon
  canCancel : Bool

def WarningIndicator.elementJson (w : WarningIndicator) : IndexMap String Json :=
  insertSlots (w.interaction.interactionJson toString "uiWarningIndicator") [
    ("can_cancel", some (.bool w.canCancel))]

structure FloatInput where
  interaction : InteractionCommon
  minVal : Option Number
  maxVal : Option Number

def FloatInput.elementJson (f : FloatInput) : IndexMap String Json :=
  insertSlots (f.interaction.interactionJson toString "uiFloatInput") [
    ("min", f.minVal.map .number),
    ("max", f.maxVal.map .number)]

structure TextInput where
  interaction : InteractionCommon
  isTextArea : Bool

def TextInput.elementJson (t : TextInput) : IndexMap String Json :=
  insertSlots (t.interaction.interactionJson toString "uiTextInput") [
    ("isTextArea", some (.bool t.isTextArea))]

/-- `datetime_input_element!`. -/
structure DatetimeInputElement where
  interaction : InteractionCommon
  pickers : Option (List String)
  direction : Option String
  maxPastMs : Option ℤ
  maxFutureMs : Option ℤ

def DatetimeInputElement.elementJson (d : DatetimeInputElement) (ty : String) :
    IndexMap String Json :=
  insertSlots (d.interaction.interactionJson toString ty) [
    ("pickers", d.pickers.map fun pickers => .array (pickers.map .string)),
    ("direction", d.direction.map .string),
    ("maxPast", d.maxPastMs.map ofI64),
    ("maxFuture", d.maxFutureMs.map ofI64)]

/-- The kinds of interactions. -/
inductive Interaction where
  | button (b : Button)
  | switch (s : Switch)
  | slider (s : Slider)
  | select (s : Select)
  | warningIndicator (w : WarningIndicator)
  | floatInput (f : FloatInput)
  | textInput (t : TextInput)
  | datetimeInput (d : DatetimeInputElement)
  | timeInput (d : DatetimeInputElement)

def Interaction.common : Interaction → InteractionCommon
  | .button b => b.interaction
  | .switch s => s.interaction
  | .slider s => s.interaction
  | .select s => s.interaction
  | .warningIndicator w => w.interaction
  | .floatInput f => f.interaction
  | .textInput t => t.interaction
  | .datetimeInput d | .timeInput d => d.interaction

def Interaction.elementJson : Interaction → IndexMap String Json
  | .button b => b.elementJson toString
  | .switch s => s.elementJson toString
  | .slider s => s.elementJson toString
  | .select s => s.elementJson toString
  | .warningIndicator w => w.elementJson toString
  | .floatInput f => f.elementJson toString
  | .textInput t => t.elementJson toString
  | .datetimeInput d => d.elementJson toString "uiDatetimeInput"
  | .timeInput d => d.elementJson toString "uiTimeInput"

end Interactions

/-! ## Displays -/

section Displays
variable (toString : Json → String)

/-- `variable_element!`. -/
structure VariableElement where
  common : ElementCommon
  value : UiValue
  precision : Option ℤ
  ranges : Option (List Range)
  thresholds : Option (List Threshold)
  defaultRangeView : Option String
  earliestDataDate : Option ℤ
  defaultRangeSinceMs : Option ℤ
  defaultZoom : Option String
  graphable : Option Bool

def VariableElement.elementJson (v : VariableElement) (varType : String) :
    IndexMap String Json :=
  insertSlots (v.common.baseJson "uiVariable") [
    ("varType", some (.string varType)),
    ("currentValue", v.value.toJson toString),
    ("decPrecision", v.precision.map ofI64),
    ("earliestDataDate", v.earliestDataDate.map ofI64),
    ("defaultRangeSince", v.defaultRangeSinceMs.map ofI64),
    ("defaultZoom", v.defaultZoom.map .string),
    ("ranges", v.ranges.map fun rs => .array (rs.map Range.toJson)),
    ("thresholds", v.thresholds.map fun ts => .array (ts.map Threshold.toJson)),
    ("defaultRangeView", v.defaultRangeView.map .string),
    ("notGraphable", v.graphable.map fun g => .bool (!g)),
    ("live", if v.value.isLive then some (.bool true) else none)]

structure Timestamp where
  common : ElementCommon
  value : UiValue
  precision : Option String
  absoluteFormat : Option String

/-- The precision is written twice. -/
def Timestamp.elementJson (t : Timestamp) : IndexMap String Json :=
  insertSlots (t.common.baseJson "uiTimestamp") [
    ("varType", some (.string "timestamp")),
    ("currentValue", t.value.toJson toString),
    ("decPrecision", t.precision.map .string),
    ("live", if t.value.isLive then some (.bool true) else none),
    ("precision", t.precision.map .string),
    ("absoluteFormat", t.absoluteFormat.map .string)]

def cameraTail (presets : List Json) (activePreset : Option Json) :
    List (String × Option Json) := [
  ("presets", some (.array presets)),
  ("activePreset", some (activePreset.getD .null))]

structure CameraLiveView where
  common : ElementCommon
  cameraName : String
  streamName : String
  allowPtzControl : Bool
  presets : List Json
  activePreset : Option Json

def CameraLiveView.elementJson (c : CameraLiveView) : IndexMap String Json :=
  insertSlots (c.common.baseJson "uiCameraLiveView") ([
    ("cameraName", some (.string c.cameraName)),
    ("streamName", some (.string c.streamName)),
    ("ptzControl", some (.bool c.allowPtzControl))] ++ cameraTail c.presets c.activePreset)

structure CameraHistory where
  common : ElementCommon
  cameraName : String
  presets : List Json
  activePreset : Option Json

def CameraHistory.elementJson (c : CameraHistory) : IndexMap String Json :=
  insertSlots (c.common.baseJson "uiCameraHistory") ([
    ("cameraName", some (.string c.cameraName)),
    ("ptzControl", some (.bool true))] ++ cameraTail c.presets c.activePreset)

structure Multiplot where
  common : ElementCommon
  series : List Series
  title : String
  earliestDataTime : Option ℤ
  defaultZoom : Option String
  defaultRangeView : Option String

def Multiplot.elementJson (p : Multiplot) : IndexMap String Json :=
  insertSlots (p.common.baseJson "uiMultiPlot") [
    ("series", some (.ofList (p.series.map fun s => (s.name, s.toJson toString)))),
    ("defaultZoom", p.defaultZoom.map .string),
    ("defaultRangeView", p.defaultRangeView.map .string),
    ("title", some (.string p.title)),
    ("earliestDataDate", p.earliestDataTime.map ofI64)]

/-- The kinds of elements that show something and take no commands. -/
inductive Display where
  | numericVariable (v : VariableElement)
  | textVariable (v : VariableElement)
  | booleanVariable (v : VariableElement)
  | dateTimeVariable (v : VariableElement)
  | timestamp (t : Timestamp)
  | cameraLiveView (c : CameraLiveView)
  | cameraHistory (c : CameraHistory)
  | multiplot (p : Multiplot)

def Display.common : Display → ElementCommon
  | .numericVariable v | .textVariable v | .booleanVariable v | .dateTimeVariable v => v.common
  | .timestamp t => t.common
  | .cameraLiveView c => c.common
  | .cameraHistory c => c.common
  | .multiplot p => p.common

def Display.elementJson : Display → IndexMap String Json
  | .numericVariable v => v.elementJson toString "float"
  | .textVariable v => v.elementJson toString "string"
  | .booleanVariable v => v.elementJson toString "bool"
  | .dateTimeVariable v => v.elementJson toString "time"
  | .timestamp t => t.elementJson toString
  | .cameraLiveView c => c.elementJson
  | .cameraHistory c => c.elementJson
  | .multiplot p => p.elementJson toString

end Displays

inductive ConnectionType where
  | constant
  | periodic
  | other
deriving DecidableEq

def ConnectionType.asStr : ConnectionType → String
  | .constant => "constant"
  | .periodic => "periodic"
  | .other => "other"

/-- How the device connects.  The element has a position and does not write it. -/
structure ConnectionInfo where
  name : String
  connectionType : ConnectionType
  connectionPeriod : Option ℤ
  nextConnection : Option ℤ
  offlineAfter : Option ℤ
  allowedMisses : Option ℤ
  position : Position

def ConnectionInfo.toJson (c : ConnectionInfo) : IndexMap String Json :=
  insertSlots .empty [
    ("name", some (.string c.name)),
    ("type", some (.string "uiConnectionInfo")),
    ("connectionType", some (.string c.connectionType.asStr)),
    ("connectionPeriod", c.connectionPeriod.map ofI64),
    ("nextConnection", c.nextConnection.map ofI64),
    ("offlineAfter", c.offlineAfter.map ofI64),
    ("allowedMisses", c.allowedMisses.map ofI64)]

/-! ## Containers and trees -/

/-- The kinds of containers, with what they have besides children. -/
inductive ContainerKind where
  | container
  | submodule (status : Option Json) (isCollapsed : Option Bool) (defaultOpen : Option UiValue)
  | tabContainer (defaultPage : Option ℤ)
  | remoteComponent (extras : IndexMap String Json)

namespace ContainerKind

def ty : ContainerKind → String
  | container => "uiContainer"
  | submodule _ _ _ => "uiSubmodule"
  | tabContainer _ => "uiTabs"
  | remoteComponent _ => "uiRemoteComponent"

/-- What comes after the children. -/
def slots (toString : Json → String) : ContainerKind → List (String × Option Json)
  | container => []
  | submodule status isCollapsed defaultOpen => [
      ("statusString", status),
      ("defaultOpen", match defaultOpen with
        | some defaultOpen => defaultOpen.toJson toString
        | none => isCollapsed.map fun collapsed => .bool (!collapsed))]
  | tabContainer defaultPage => [("defaultPage", defaultPage.map ofI64)]
  | remoteComponent extras => extras.entries.map fun e => (e.1, some e.2)

end ContainerKind

/-- An element.  Containers alone have children, and interactions alone take commands. -/
inductive Element where
  | interaction (i : Interaction)
  | display (d : Display)
  | connectionInfo (c : ConnectionInfo)
  | container (common : ElementCommon) (kind : ContainerKind) (children : List Element)

namespace Element

def name : Element → String
  | interaction i => i.common.element.name
  | display d => d.common.name
  | connectionInfo c => c.name
  | container common _ _ => common.name

def isInteraction : Element → Bool
  | interaction _ => true
  | _ => false

def nestedChildren : Element → List Element
  | container _ _ children => children
  | _ => []

mutual
def toJson (toString : Json → String) : Element → Json
  | interaction i => .object (i.elementJson toString)
  | display d => .object (d.elementJson toString)
  | connectionInfo c => .object c.toJson
  | container common kind children =>
    .object (insertSlots
      ((common.baseJson kind.ty).insert "children" (.ofList (childrenJson toString children)))
      (kind.slots toString))
/-- The entries of `children`. -/
def childrenJson (toString : Json → String) : List Element → List (String × Json)
  | [] => []
  | child :: children => (child.name, child.toJson toString) :: childrenJson toString children
end

mutual
/-- The names of the interactions of an element and of those below it. -/
def collect : Element → List String
  | interaction i => [i.common.element.name]
  | display _ => []
  | connectionInfo _ => []
  | container _ _ children => collectAll children
def collectAll : List Element → List String
  | [] => []
  | child :: children => child.collect ++ collectAll children
end

end Element

/-! ## Positions -/

def ElementCommon.setPositionIfUnset (c : ElementCommon) (n : ℤ) : ElementCommon :=
  { c with position := c.position.setIfUnset n }

def InteractionCommon.setPositionIfUnset (i : InteractionCommon) (n : ℤ) : InteractionCommon :=
  { i with element := i.element.setPositionIfUnset n }

def Interaction.setPositionIfUnset (n : ℤ) : Interaction → Interaction
  | .button b => .button { b with interaction := b.interaction.setPositionIfUnset n }
  | .switch s => .switch { s with interaction := s.interaction.setPositionIfUnset n }
  | .slider s => .slider { s with interaction := s.interaction.setPositionIfUnset n }
  | .select s => .select { s with interaction := s.interaction.setPositionIfUnset n }
  | .warningIndicator w =>
    .warningIndicator { w with interaction := w.interaction.setPositionIfUnset n }
  | .floatInput f => .floatInput { f with interaction := f.interaction.setPositionIfUnset n }
  | .textInput t => .textInput { t with interaction := t.interaction.setPositionIfUnset n }
  | .datetimeInput d => .datetimeInput { d with interaction := d.interaction.setPositionIfUnset n }
  | .timeInput d => .timeInput { d with interaction := d.interaction.setPositionIfUnset n }

def Display.setPositionIfUnset (n : ℤ) : Display → Display
  | .numericVariable v => .numericVariable { v with common := v.common.setPositionIfUnset n }
  | .textVariable v => .textVariable { v with common := v.common.setPositionIfUnset n }
  | .booleanVariable v => .booleanVariable { v with common := v.common.setPositionIfUnset n }
  | .dateTimeVariable v => .dateTimeVariable { v with common := v.common.setPositionIfUnset n }
  | .timestamp t => .timestamp { t with common := t.common.setPositionIfUnset n }
  | .cameraLiveView c => .cameraLiveView { c with common := c.common.setPositionIfUnset n }
  | .cameraHistory c => .cameraHistory { c with common := c.common.setPositionIfUnset n }
  | .multiplot p => .multiplot { p with common := p.common.setPositionIfUnset n }

namespace Element

def setPositionIfUnset (n : ℤ) : Element → Element
  | interaction i => .interaction (i.setPositionIfUnset n)
  | display d => .display (d.setPositionIfUnset n)
  | connectionInfo c => .connectionInfo { c with position := c.position.setIfUnset n }
  | container common kind children => .container (common.setPositionIfUnset n) kind children

mutual
/-- Count an element, after the elements nested in it. -/
def assignPositionsDepthFirst : Element → ℤ → Element × ℤ
  | container common kind nestedChildren, counter =>
    let (nestedChildren, counter) := assignPositions nestedChildren counter
    let counter := counter + 1
    ((container common kind nestedChildren).setPositionIfUnset counter, counter)
  | element, counter =>
    let counter := counter + 1
    (element.setPositionIfUnset counter, counter)
def assignPositions : List Element → ℤ → List Element × ℤ
  | [], counter => ([], counter)
  | child :: children, counter =>
    let (child, counter) := assignPositionsDepthFirst child counter
    let (children, counter) := assignPositions children counter
    (child :: children, counter)
end

end Element

/-- The root node's literals. -/
structure UiApplicationInfo where
  displayName : Json := .string "$config.app().APP_DISPLAY_NAME"
  hidden : Json := .string "$config.app().interpreter_hidden:boolean:false"
  fullWidth : Json := .string "$config.app().interpreter_full_width:boolean:false"
  position : Json := .string "$config.app().dv_app_position:number:100"
  defaultOpen : Json := .string "$config.app().dv_app_default_open:boolean"
  icon : Json := .null
  colour : Json := .null

def UiApplicationInfo.slots (app : UiApplicationInfo) : List (String × Option Json) := [
  ("displayString", some app.displayName),
  ("hidden", some app.hidden),
  ("fullWidth", some app.fullWidth),
  ("position", some app.position),
  ("icon", some app.icon),
  ("colour", some app.colour),
  ("defaultOpen", some app.defaultOpen),
  ("type", some (.string "uiApplication")),
  ("name", some (.string "$config.app().APP_KEY"))]

/-- The elements of an app, in declaration order. -/
structure UiTree where
  children : List Element

namespace UiTree
variable (ui : UiTree)

def interactionNames : List String := Element.collectAll ui.children

def finalize : UiTree := ⟨(Element.assignPositions ui.children POSITION_COUNTER_START).1⟩

/-- `to_schema`. -/
def toSchema (toString : Json → String) (app : UiApplicationInfo) : Json :=
  .object ((insertSlots .empty app.slots).insert "children"
    (.ofList (Element.childrenJson toString ui.children)))

end UiTree
end Ui
end Doover
