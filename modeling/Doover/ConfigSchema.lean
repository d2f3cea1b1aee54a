import Doover.JsonValue

/-! # Config schemas

An app declares the elements of its config.  They are exported as a JSON Schema
(`SchemaModel.toJson`), and each is loaded from the deployment's config
(`loadElementIn`).

A conditional element is active when its controller, a sibling, has one of certain values.
It is exported in the `then` of an `allOf` branch, one branch for the elements that share a
controller and a condition.
-/

namespace Doover
open Json

inductive Comparator where
  | equal
  /-- The controller has any one of a list of values. -/
  | isIn
deriving DecidableEq

/-- When a config element is active. -/
structure Condition where
  /-- The name of the controller. -/
  element : String
  comparator : Comparator
  value : Json

namespace Condition

def equal (element : String) (value : Json) : Condition := ⟨element, .equal, value⟩

instance : BEq Condition :=
  ⟨fun a b => a.element == b.element && a.comparator == b.comparator && a.value == b.value⟩

/-- The test of an `if` on the controller. -/
def toTest (c : Condition) : Json :=
  match c.comparator with
  | .equal => Json.ofList [("const", c.value)]
  | .isIn => Json.ofList [("enum", c.value)]

/-- Whether the controller's value, if it has one, meets the condition. -/
def matchesActual (c : Condition) (actual : Option Json) : Bool :=
  match c.comparator, actual with
  | _, none => false
  | .equal, some actual => actual == c.value
  | .isIn, some actual => c.value.asArray.any fun values => values.any (· == actual)

end Condition

structure NumericBounds where
  minimum : Option Number
  exclusiveMinimum : Option Number
  maximum : Option Number
  exclusiveMaximum : Option Number
  multipleOf : Option Number

structure StringBounds where
  length : Option UInt64
  pattern : Option String

mutual
/-- A config element. -/
structure ElementSchema where
  title : String
  /-- Its key in the config. -/
  name : String
  hidden : Bool
  format : Option String
  /-- Overrides what `default` says. -/
  required : Option Bool
  description : Option String
  default : Option Json
  position : Option UInt32
  deprecated : Option Bool
  advanced : Option Bool
  showIf : Option Condition
  kind : ElementKind
/-- The type of an element, with what that type adds. -/
inductive ElementKind where
  | integer (bounds : NumericBounds)
  | number (bounds : NumericBounds)
  | boolean
  | string (bounds : StringBounds)
  /-- `titles` has a display name a choice, or is empty. -/
  | enum (choices : List Json) (titles : List (Option String)) (ty : Option String)
  | array (items : ElementSchema) (minItems maxItems : Option UInt64) (uniqueItems : Option Bool)
  | object (properties : List ElementSchema) (additionalElements : Json)
      (collapsible defaultCollapsed : Bool)
end

def ElementKind.typeName : ElementKind → Option String
  | .integer _ => some "integer"
  | .number _ => some "number"
  | .boolean => some "boolean"
  | .string _ => some "string"
  | .enum _ _ ty => ty
  | .array .. => some "array"
  | .object .. => some "object"

namespace ElementSchema

def new (title name : String) (kind : ElementKind) : ElementSchema where
  title
  name
  hidden := false
  format := none
  required := none
  description := none
  default := none
  position := none
  deprecated := none
  advanced := none
  showIf := none
  kind

def number (title name : String) : ElementSchema :=
  new title name (.number ⟨none, none, none, none, none⟩)

def isRequired (el : ElementSchema) : Bool := el.required.getD el.default.isNone

/-- Whether the element is active for `data`.  A controller that is not in `data` has its
default. -/
def conditionHolds (el : ElementSchema) (data : Json) (siblings : List ElementSchema) : Bool :=
  match el.showIf with
  | none => true
  | some condition =>
    condition.matchesActual <|
      match data.get? condition.element with
      | some v => some v
      | none => (siblings.find? (·.name == condition.element)).bind (·.default)

end ElementSchema

/-! ## Export -/

/-- A declaration that the export panics on. -/
inductive Misuse where
  | unknownController (element controller : String)
  | dependsOnItself (element : String)
  | dependsOnConditional (element controller : String)

/-- An element with what its own export comes to. -/
abbrev Exported := ElementSchema × Except Misuse Json

/-- The elements of one `allOf` branch. -/
structure Group where
  controller : String
  condition : Condition
  members : List Exported

structure ObjectSchema where
  properties : IndexMap String Json
  required : List Json
  allOf : List Json

/-- A loop of `buildObjectSchema` midway. -/
structure Split where
  properties : IndexMap String Json
  required : List Json
  groups : List Group

/-- Join the first group with the controller and the condition. -/
def addToGroups (controller : String) (condition : Condition) (element : Exported) :
    List Group → List Group
  | [] => [⟨controller, condition, [element]⟩]
  | g :: gs =>
    if g.controller == controller && g.condition == condition then
      { g with members := g.members ++ [element] } :: gs
    else g :: addToGroups controller condition element gs

/-- One element of `elements`. -/
def Split.add (elements : List ElementSchema) (s : Split) (element : Exported) :
    Except Misuse Split :=
  match element.1.showIf with
  | none => do
    -- only here is the export of the element asked for; a member's is when its branch is built
    let json ← element.2
    let name := element.1.name
    return { s with
      properties := s.properties.insert name json
      required := if element.1.isRequired then s.required ++ [.string name] else s.required }
  | some condition =>
    match elements.find? (·.name == condition.element) with
    | none => .error (.unknownController element.1.name condition.element)
    | some controller =>
      if controller.name == element.1.name then .error (.dependsOnItself element.1.name)
      else if controller.showIf.isSome then
        .error (.dependsOnConditional element.1.name controller.name)
      else .ok { s with groups := addToGroups controller.name condition element s.groups }

/-- The test on the controller. -/
def Group.ifSchema (elements : List ElementSchema) (g : Group) : Json :=
  let m := IndexMap.empty.insert "properties" (Json.ofList [(g.controller, g.condition.toTest)])
  let controller := elements.find? (·.name == g.controller)
  -- `properties` lets an absent controller through
  if g.condition.matchesActual (controller.bind (·.default)) then .object m
  else .object (m.insert "required" (.array [.string g.controller]))

def Group.thenSchema (g : Group) (properties : List (String × Json)) : Json :=
  let m := IndexMap.empty.insert "properties" (Json.ofList properties)
  let required := (g.members.filter (·.1.isRequired)).map fun member => .string member.1.name
  if required.isEmpty then .object m else .object (m.insert "required" (.array required))

def Group.branch (elements : List ElementSchema) (g : Group) : Except Misuse Json := do
  let properties ← g.members.mapM fun member => do return (member.1.name, ← member.2)
  return Json.ofList [("if", g.ifSchema elements), ("then", g.thenSchema properties)]

/-- The export of one object level. -/
def buildObjectSchema (exported : List Exported) : Except Misuse ObjectSchema := do
  let elements := exported.map (·.1)
  let s ← exported.foldlM (Split.add elements) ⟨.empty, [], []⟩
  let allOf ← s.groups.mapM (Group.branch elements)
  return ⟨s.properties, s.required, allOf⟩

/-- Give `k` a value if there is one. -/
def insertSome (m : IndexMap String Json) (k : String) (v : Option Json) : IndexMap String Json :=
  match v with
  | some v => m.insert k v
  | none => m

/-- A titled choice. -/
def choiceOption (value : Json) (title : String) : Json :=
  Json.ofList [("const", value), ("title", .string title)]

/-- `toString` is how a value other than a string is shown. -/
def titledChoice (toString : Json → String) (choice : Json) (title : Option String) : Json :=
  choiceOption choice (title.getD (choice.asStr.getD (toString choice)))

/-- What comes before the title: the choices, a null default being one of them. -/
def ElementSchema.choiceKeys (toString : Json → String) (el : ElementSchema) :
    IndexMap String Json :=
  match el.kind with
  | .enum choices titles _ =>
    let nullDefault := el.default.any fun v => v == .null
    if titles.any Option.isSome then
      let options := (choices.zip titles).map fun o => titledChoice toString o.1 o.2
      IndexMap.empty.insert "oneOf"
        (.array (if nullDefault then options ++ [choiceOption .null "None"] else options))
    else
      IndexMap.empty.insert "enum" (.array (if nullDefault then choices ++ [.null] else choices))
  | _ => .empty

/-- What elements of every type have. -/
def ElementSchema.baseKeys (el : ElementSchema) (m : IndexMap String Json) :
    IndexMap String Json :=
  let m := m.insert "title" (.string el.title)
  let m := m.insert "x-name" (.string el.name)
  let m := m.insert "x-hidden" (.bool el.hidden)
  let m := insertSome m "format" (el.format.map .string)
  let m := insertSome m "type" (el.kind.typeName.map fun ty =>
    if el.isRequired then .string ty else .array [.string ty, .string "null"])
  let m := m.insert "x-required" (.bool el.isRequired)
  let m := insertSome m "description" (el.description.map .string)
  let m := insertSome m "default" el.default
  let m := insertSome m "x-position" (el.position.map fun n => Json.ofU64 n.toUInt64)
  let m := insertSome m "deprecated" (el.deprecated.map .bool)
  insertSome m "x-advanced" (el.advanced.map .bool)

def NumericBounds.keys (b : NumericBounds) (m : IndexMap String Json) : IndexMap String Json :=
  let m := insertSome m "minimum" (b.minimum.map .number)
  let m := insertSome m "exclusiveMinimum" (b.exclusiveMinimum.map .number)
  let m := insertSome m "maximum" (b.maximum.map .number)
  let m := insertSome m "exclusiveMaximum" (b.exclusiveMaximum.map .number)
  insertSome m "multipleOf" (b.multipleOf.map .number)

def StringBounds.keys (b : StringBounds) (m : IndexMap String Json) : IndexMap String Json :=
  let m := insertSome m "length" (b.length.map Json.ofU64)
  insertSome m "pattern" (b.pattern.map .string)

/-- What an object has after its own export. -/
def ObjectSchema.keys (o : ObjectSchema) (additionalElements : Json)
    (collapsible defaultCollapsed : Bool) (m : IndexMap String Json) : IndexMap String Json :=
  let m := m.insert "properties" (.object o.properties)
  let m := m.insert "additionalElements" additionalElements
  let m :=
    if additionalElements.isObject then m.insert "additionalProperties" additionalElements else m
  let m := m.insert "required" (.array o.required)
  let m := if o.allOf.isEmpty then m else m.insert "allOf" (.array o.allOf)
  let m := m.insert "x-collapsible" (.bool collapsible)
  m.insert "x-defaultCollapsed" (.bool defaultCollapsed)

variable (toString : Json → String)

mutual
def ElementSchema.toJson : ElementSchema → Except Misuse Json
  | ⟨title, name, hidden, format, required, description, default, position, deprecated, advanced,
      showIf, kind⟩ => do
    let el : ElementSchema := ⟨title, name, hidden, format, required, description, default,
      position, deprecated, advanced, showIf, kind⟩
    return .object (← kind.typeKeys (el.baseKeys (el.choiceKeys toString)))
termination_by structural el => el
/-- What the type of an element adds. -/
def ElementKind.typeKeys :
    ElementKind → IndexMap String Json → Except Misuse (IndexMap String Json)
  | .integer b, m => .ok (b.keys m)
  | .number b, m => .ok (b.keys m)
  | .boolean, m => .ok m
  | .string b, m => .ok (b.keys m)
  | .enum .., m => .ok m
  | .array items minItems maxItems uniqueItems, m => do
    let m := m.insert "items" (← items.toJson)
    let m := insertSome m "minItems" (minItems.map Json.ofU64)
    let m := insertSome m "maxItems" (maxItems.map Json.ofU64)
    return insertSome m "uniqueItems" (uniqueItems.map .bool)
  | .object properties additionalElements collapsible defaultCollapsed, m => do
    let object ← buildObjectSchema (exportAll properties)
    return object.keys additionalElements collapsible defaultCollapsed m
termination_by structural kind => kind
/-- Every element with its export, which a loop may or may not get to. -/
def exportAll : List ElementSchema → List Exported
  | [] => []
  | el :: els => (el, el.toJson) :: exportAll els
termination_by structural els => els
end

/-- The config schema of an app. -/
structure SchemaModel where
  title : Option String
  advanced : Option Bool
  elements : List ElementSchema

def SchemaModel.toJson (schema : SchemaModel) : Except Misuse Json := do
  let m := IndexMap.empty.insert "$schema" (.string "https://json-schema.org/draft/2020-12/schema")
  let m := m.insert "$id" (.string "")
  let m := m.insert "title" (.string (schema.title.getD "$default"))
  let m := m.insert "type" (.string "object")
  let object ← buildObjectSchema (exportAll toString schema.elements)
  let m := m.insert "properties" (.object object.properties)
  let m := m.insert "additionalElements" (.bool true)
  let m := m.insert "required" (.array object.required)
  let m := if object.allOf.isEmpty then m else m.insert "allOf" (.array object.allOf)
  return .object (insertSome m "x-advanced" (schema.advanced.map .bool))

/-! ## Loading -/

section Loading
variable {α : Type} (fromConfigValue : Json → Except String α)

/-- What the load of a missing element that is required says. -/
def requiredMissing (key : String) : String :=
  "required config element '" ++ key ++ "' not found in deployment config"

/-- Read `v` with the error text of `what`. -/
def readConfigValue (what : String) (v : Json) : Except String α :=
  (fromConfigValue v).mapError fun e => what ++ ": " ++ e

/-- Load one element, its siblings being at hand.  An element that is not active is not
asked for; null reads as absent unless the element is required. -/
def loadElementIn (v : Json) (el : ElementSchema) (siblings : List ElementSchema) :
    Except String α :=
  let key := el.name
  let element := "config element '" ++ key ++ "'"
  -- not asked for, so never missing
  if (v.get? key).isNone && !el.conditionHolds v siblings then
    readConfigValue fromConfigValue ("inactive conditional " ++ element) (el.default.getD .null)
  else
    match v.get? key with
    | some val =>
      -- a required element that is null is read as it is
      if val == .null && !el.isRequired then
        readConfigValue fromConfigValue (element ++ " default") (el.default.getD .null)
      else readConfigValue fromConfigValue element val
    | none =>
      if !el.isRequired then
        readConfigValue fromConfigValue (element ++ " default") (el.default.getD .null)
      else .error (requiredMissing key)

/-- Load one element by itself. -/
def loadElement (v : Json) (el : ElementSchema) : Except String α :=
  loadElementIn fromConfigValue v el []

end Loading
end Doover
