import Mathlib.Data.String.Basic
import Doover.ConfigSchema
import Doover.Doubles
import Doover.SortedMap

/-! # Values of a config

A Rust default is exported to JSON (`ToConfigValue`) and a deployment's config is read from it
(`FromConfigValue`).  Each type has its own two conversions, and a container's go through those
of what it contains.

What is exported is read back (`from_toConfigValue`), for every type that is built from the
scalars, the containers and `TagRef` (`Built`).  An option needs that nothing below it is
exported as null, which is what `none` is; a float that is not finite is exported as null.
-/

namespace Doover
open Json

/-- What `serde_json` puts into the text of an error: a value as it is shown, and its own
complaint of a value that is not of a type. -/
class JsonTexts where
  display : Json → String
  complaint : String → Json → String

class FromConfigValue (α : Type) where
  fromConfigValue : Json → Except String α

class ToConfigValue (α : Type) where
  toConfigValue : α → Json

export FromConfigValue (fromConfigValue)
export ToConfigValue (toConfigValue)

section Conversions
variable [JsonTexts] {α : Type}

/-! ## Scalars -/

/-- A scalar of the type `ty`, as the deserializer reads it. -/
def scalar (ty : String) (read : Json → Option α) (v : Json) : Except String α :=
  match read v with
  | some x => .ok x
  | none => .error ("expected " ++ ty ++ ", got " ++ JsonTexts.display v ++ ": " ++
      JsonTexts.complaint ty v)

/-- A type of integers of a fixed width. -/
class MachineInt (α : Type) where
  min : ℤ
  max : ℤ
  range : -2 ^ 63 ≤ min ∧ max < 2 ^ 64
  toInt : α → ℤ
  ofInt : ℤ → α
  toInt_range : ∀ x, min ≤ toInt x ∧ toInt x ≤ max
  ofInt_toInt : ∀ x, ofInt (toInt x) = x

/-- An integer in the range of the type; a double is none, even a whole one. -/
def readInt [MachineInt α] : Json → Option α
  | .number (.int n _) =>
    if MachineInt.min α ≤ n ∧ n ≤ MachineInt.max α then some (MachineInt.ofInt n) else none
  | _ => none

def intToJson [MachineInt α] (x : α) : Json :=
  .ofInt (MachineInt.toInt x)
    ⟨(@MachineInt.range α _).1.trans (MachineInt.toInt_range x).1,
      (MachineInt.toInt_range x).2.trans_lt (@MachineInt.range α _).2⟩

omit [JsonTexts] in
theorem readInt_intToJson [MachineInt α] (x : α) : readInt (intToJson x) = some x := by
  rw [intToJson, Json.ofInt, readInt, if_pos (MachineInt.toInt_range x), MachineInt.ofInt_toInt]

instance : MachineInt Int8 where
  min := -2 ^ 7
  max := 2 ^ 7 - 1
  range := by decide
  toInt := Int8.toInt
  ofInt := Int8.ofInt
  toInt_range x := ⟨x.le_toInt, Int.le_sub_one_of_lt x.toInt_lt⟩
  ofInt_toInt := Int8.ofInt_toInt

instance : MachineInt Int16 where
  min := -2 ^ 15
  max := 2 ^ 15 - 1
  range := by decide
  toInt := Int16.toInt
  ofInt := Int16.ofInt
  toInt_range x := ⟨x.le_toInt, Int.le_sub_one_of_lt x.toInt_lt⟩
  ofInt_toInt := Int16.ofInt_toInt

instance : MachineInt Int32 where
  min := -2 ^ 31
  max := 2 ^ 31 - 1
  range := by decide
  toInt := Int32.toInt
  ofInt := Int32.ofInt
  toInt_range x := ⟨x.le_toInt, Int.le_sub_one_of_lt x.toInt_lt⟩
  ofInt_toInt := Int32.ofInt_toInt

instance : MachineInt Int64 where
  min := -2 ^ 63
  max := 2 ^ 63 - 1
  range := by decide
  toInt := Int64.toInt
  ofInt := Int64.ofInt
  toInt_range x := ⟨x.le_toInt, Int.le_sub_one_of_lt x.toInt_lt⟩
  ofInt_toInt := Int64.ofInt_toInt

instance : MachineInt UInt8 where
  min := 0
  max := 2 ^ 8 - 1
  range := by decide
  toInt x := x.toNat
  ofInt n := .ofNat n.toNat
  toInt_range x := by have := x.toNat_lt; omega
  ofInt_toInt x := UInt8.ofNat_toNat

instance : MachineInt UInt16 where
  min := 0
  max := 2 ^ 16 - 1
  range := by decide
  toInt x := x.toNat
  ofInt n := .ofNat n.toNat
  toInt_range x := by have := x.toNat_lt; omega
  ofInt_toInt x := UInt16.ofNat_toNat

instance : MachineInt UInt32 where
  min := 0
  max := 2 ^ 32 - 1
  range := by decide
  toInt x := x.toNat
  ofInt n := .ofNat n.toNat
  toInt_range x := by have := x.toNat_lt; omega
  ofInt_toInt x := UInt32.ofNat_toNat

/-- The format of singles. -/
def binary32 : BinaryFormat := ⟨23, -149, 104, by decide⟩

abbrev Binary32 := binary32.Float

omit [JsonTexts] in
theorem isBinary64_of_single {x : ℚ} (hx : binary32.IsValue x) : IsBinary64 x :=
  Binary64.isBinary64_iff.mpr (hx.widen (by decide) (by decide) (by decide))

/-- A number as an `f32`. -/
def readF32 : Json → Option Binary32
  | .number n => some (binary32.round n.value)
  | _ => none

/-- JSON has no number that is not finite. -/
def f32ToJson : Binary32 → Json
  | .finite x hx => .number (.float ⟨x, isBinary64_of_single hx⟩)
  | .nan | .infinity _ => .null

/-- A number as an `f64`. -/
def readF64 : Json → Option Binary64
  | .number n => some n.toBinary64
  | _ => none

def f64ToJson : Binary64 → Json
  | .finite x hx => .number (.float ⟨x, hx⟩)
  | .nan | .infinity _ => .null

def readBool : Json → Option Bool
  | .bool b => some b
  | _ => none

instance : FromConfigValue Int8 := ⟨scalar "i8" readInt⟩
instance : FromConfigValue Int16 := ⟨scalar "i16" readInt⟩
instance : FromConfigValue Int32 := ⟨scalar "i32" readInt⟩
instance : FromConfigValue Int64 := ⟨scalar "i64" readInt⟩
instance : FromConfigValue UInt8 := ⟨scalar "u8" readInt⟩
instance : FromConfigValue UInt16 := ⟨scalar "u16" readInt⟩
instance : FromConfigValue UInt32 := ⟨scalar "u32" readInt⟩
instance : FromConfigValue Binary32 := ⟨scalar "f32" readF32⟩
instance : FromConfigValue Binary64 := ⟨scalar "f64" readF64⟩
instance : FromConfigValue Bool := ⟨scalar "bool" readBool⟩
instance : FromConfigValue String := ⟨scalar "String" Json.asStr⟩

instance : ToConfigValue Int8 := ⟨intToJson⟩
instance : ToConfigValue Int16 := ⟨intToJson⟩
instance : ToConfigValue Int32 := ⟨intToJson⟩
instance : ToConfigValue Int64 := ⟨intToJson⟩
instance : ToConfigValue UInt8 := ⟨intToJson⟩
instance : ToConfigValue UInt16 := ⟨intToJson⟩
instance : ToConfigValue UInt32 := ⟨intToJson⟩
instance : ToConfigValue Binary32 := ⟨f32ToJson⟩
instance : ToConfigValue Binary64 := ⟨f64ToJson⟩
instance : ToConfigValue Bool := ⟨.bool⟩
instance : ToConfigValue String := ⟨.string⟩

/-! ## Containers -/

abbrev BTreeMap (α : Type) := SortedMap String α

abbrev HashMap (α : Type) := Finmap fun _ : String => α

variable [FromConfigValue α] [ToConfigValue α]

instance : FromConfigValue (Option α) where
  fromConfigValue v := if v == .null then .ok none else some <$> fromConfigValue v

instance : ToConfigValue (Option α) where
  toConfigValue x := x.elim .null toConfigValue

instance : FromConfigValue (List α) where
  fromConfigValue v :=
    match v.asArray with
    | some items => items.mapM fromConfigValue
    | none => .error ("expected array, got " ++ JsonTexts.display v)

instance : ToConfigValue (List α) where
  toConfigValue xs := .array (xs.map toConfigValue)

/-- The fields of an object, each read as an `α`, collected; a bad value names its key. -/
def mapFromConfigValue {M : Type} (collect : List (String × α) → M) (v : Json) :
    Except String M :=
  match v.asObject with
  | some obj => do
    let entries ← obj.entries.mapM fun e => do
      return (e.1, ← readConfigValue fromConfigValue ("key '" ++ e.1 ++ "'") e.2)
    return collect entries
  | none => .error ("expected object, got " ++ JsonTexts.display v)

/-- The fields of a map, in its order. -/
def mapToConfigValue (m : BTreeMap α) : Json :=
  .object (.ofList (m.toIndexMap.entries.map fun e => (e.1, toConfigValue e.2)))

instance : FromConfigValue (BTreeMap α) := ⟨mapFromConfigValue SortedMap.ofList⟩

instance : FromConfigValue (HashMap α) := ⟨mapFromConfigValue SortedMap.finmapOfList⟩

instance : ToConfigValue (BTreeMap α) := ⟨mapToConfigValue⟩

/-- Sorted, so that an export does not depend on the hashes. -/
instance : ToConfigValue (HashMap α) := ⟨fun m => mapToConfigValue (SortedMap.ofFinmap m)⟩

/-! ## Tag references -/

/-- A reference to a tag of another application. -/
structure TagRef where
  referenceName : String := ""
  /-- The agent that owns the tag, if it is not this one. -/
  agentId : Option String := none
  appName : String := ""
  tagName : String := ""

/-- Load a field, or take `default` when the key is absent or null. -/
def fieldOr (v : Json) (key : String) (default : α) : Except String α :=
  match v.get? key with
  | some val =>
    if val == .null then .ok default
    else readConfigValue fromConfigValue ("config element '" ++ key ++ "'") val
  | none => .ok default

/-- Load an optional field: none when the key is absent or null. -/
def fieldOptional (v : Json) (key : String) : Except String (Option α) :=
  match v.get? key with
  | some val =>
    if val == .null then .ok none
    else some <$> readConfigValue fromConfigValue ("config element '" ++ key ++ "'") val
  | none => .ok none

instance : FromConfigValue TagRef where
  fromConfigValue v :=
    if v == .null then .ok {}
    else do
      return {
        referenceName := ← fieldOr v "reference_name" ""
        agentId := ← fieldOptional v "agent_id"
        appName := ← fieldOr v "app_name" ""
        tagName := ← fieldOr v "tag_name" "" }

instance : ToConfigValue TagRef where
  toConfigValue r := .ofList [
    ("reference_name", .string r.referenceName), ("agent_id", toConfigValue r.agentId),
    ("app_name", .string r.appName), ("tag_name", .string r.tagName)]

/-! ## What is exported is read back -/

omit [JsonTexts] [FromConfigValue α] in
theorem toConfigValue_some (x : α) : toConfigValue (some x) = toConfigValue x := rfl

omit [JsonTexts] [ToConfigValue α] in
theorem fromConfigValue_some {v : Json} {x : α} (hnull : v ≠ .null)
    (hread : fromConfigValue v = .ok x) : fromConfigValue v = .ok (some x) := by
  show (if (v == .null) = true then _ else _) = _
  rw [if_neg (beq_null_iff.not.mpr hnull), hread]
  rfl

omit [JsonTexts] [ToConfigValue α] in
/-- A field that is not null is read as it would be by itself. -/
theorem fieldOr_of_read {v val : Json} {key : String} {x : α} (default : α)
    (hval : v.get? key = some val) (hnull : val ≠ .null) (hread : fromConfigValue val = .ok x) :
    fieldOr v key default = .ok x := by
  simp only [fieldOr, hval]
  rw [if_neg (beq_null_iff.not.mpr hnull), readConfigValue, hread]
  rfl

omit [JsonTexts] in
/-- None is exported as null, and null is loaded as none. -/
theorem fieldOptional_of_read {v : Json} {key : String} {x : Option α}
    (hval : v.get? key = some (toConfigValue x)) (hnull : ∀ y ∈ x, toConfigValue y ≠ .null)
    (hread : ∀ y ∈ x, fromConfigValue (toConfigValue y) = .ok y) :
    fieldOptional v key = .ok x := by
  cases x with
  | none =>
    simp only [fieldOptional, hval]
    rfl
  | some y =>
    simp only [fieldOptional, hval, toConfigValue_some]
    rw [if_neg (beq_null_iff.not.mpr (hnull y rfl)), readConfigValue, hread y rfl]
    rfl

omit [JsonTexts] [FromConfigValue α] [ToConfigValue α] in
theorem mapM_of_read {β : Type} {encode : α → β} {read : β → Except String α} {xs : List α}
    (hread : ∀ x ∈ xs, read (encode x) = .ok x) : (xs.map encode).mapM read = .ok xs := by
  induction xs with
  | nil => rfl
  | cons x xs ih =>
    rw [List.map_cons, List.mapM_cons, hread x List.mem_cons_self,
      ih fun y hy => hread y (List.mem_cons_of_mem x hy)]
    rfl

/-- The values of a map being read back, so is the map of its entries. -/
theorem mapFromConfigValue_of_read {M : Type} {collect : List (String × α) → M} {m : BTreeMap α}
    (hread : ∀ k x, m.get? k = some x → fromConfigValue (toConfigValue x) = .ok x) :
    mapFromConfigValue collect (mapToConfigValue m) = .ok (collect m.toIndexMap.entries) := by
  have hfields : IndexMap.ofList (m.toIndexMap.entries.map fun e => (e.1, toConfigValue e.2)) =
      m.toIndexMap.map toConfigValue := by
    rw [← IndexMap.entries_map, IndexMap.ofList_entries]
  rw [mapToConfigValue, hfields, mapFromConfigValue, Json.asObject]
  simp only [IndexMap.entries_map]
  rw [mapM_of_read]
  · rfl
  · intro e he
    rw [readConfigValue, hread e.1 e.2 (IndexMap.mem_entries.mp he)]
    rfl

/-- The types that are built from the scalars, the containers and `TagRef`, each with the values
that are exported in full: floats are finite, wherever they are. -/
inductive Built : (α : Type) → [FromConfigValue α] → [ToConfigValue α] → (α → Prop) → Prop
  | i8 : Built Int8 fun _ => True
  | i16 : Built Int16 fun _ => True
  | i32 : Built Int32 fun _ => True
  | i64 : Built Int64 fun _ => True
  | u8 : Built UInt8 fun _ => True
  | u16 : Built UInt16 fun _ => True
  | u32 : Built UInt32 fun _ => True
  | f32 : Built Binary32 fun x => ∃ q hq, x = .finite q hq
  | f64 : Built Binary64 fun x => ∃ q hq, x = .finite q hq
  | bool : Built Bool fun _ => True
  | string : Built String fun _ => True
  | tagRef : Built TagRef fun _ => True
  | vec {α : Type} [FromConfigValue α] [ToConfigValue α] {P : α → Prop} (h : Built α P) :
    Built (List α) fun xs => ∀ x ∈ xs, P x
  | btreeMap {α : Type} [FromConfigValue α] [ToConfigValue α] {P : α → Prop} (h : Built α P) :
    Built (BTreeMap α) fun m => ∀ k x, m.get? k = some x → P x
  | hashMap {α : Type} [FromConfigValue α] [ToConfigValue α] {P : α → Prop} (h : Built α P) :
    Built (HashMap α) fun m => ∀ k x, m.lookup k = some x → P x
  /-- An option of a type no value of which is exported as null, as `none` is. -/
  | option {α : Type} [FromConfigValue α] [ToConfigValue α] {P : α → Prop} (h : Built α P)
    (hnull : ∀ x, P x → toConfigValue x ≠ .null) : Built (Option α) fun o => ∀ x ∈ o, P x

omit [FromConfigValue α] [ToConfigValue α] in
theorem scalar_of_read {ty : String} {read : Json → Option α} {v : Json} {x : α}
    (h : read v = some x) : scalar ty read v = .ok x := by
  rw [scalar, h]

omit [JsonTexts] in
theorem readF32_f32ToJson {q : ℚ} (hq : binary32.IsValue q) :
    readF32 (f32ToJson (.finite q hq)) = some (.finite q hq) :=
  congrArg some (BinaryFormat.round_of_isValue hq)

theorem string_of_json (s : String) : fromConfigValue (Json.string s) = .ok s :=
  scalar_of_read rfl

omit [JsonTexts] [FromConfigValue α] [ToConfigValue α] in
/-- Each field is under its own key. -/
theorem get?_tagRef (r : TagRef) :
    (toConfigValue r).get? "reference_name" = some (.string r.referenceName) ∧
      (toConfigValue r).get? "agent_id" = some (toConfigValue r.agentId) ∧
      (toConfigValue r).get? "app_name" = some (.string r.appName) ∧
      (toConfigValue r).get? "tag_name" = some (.string r.tagName) := by
  simp [toConfigValue, Json.ofList, IndexMap.ofList, IndexMap.get?_insert]

omit [FromConfigValue α] [ToConfigValue α] in
theorem tagRef_from_toConfigValue (r : TagRef) : fromConfigValue (toConfigValue r) = .ok r := by
  have hstring : ∀ s : String, Json.string s ≠ .null := fun s h => by cases h
  obtain ⟨hreference, hagent, happ, htag⟩ := get?_tagRef r
  have hreference := fieldOr_of_read "" hreference (hstring _) (string_of_json r.referenceName)
  have hagent := fieldOptional_of_read hagent (fun s _ => hstring s) fun s _ => string_of_json s
  have happ := fieldOr_of_read "" happ (hstring _) (string_of_json r.appName)
  have htag := fieldOr_of_read "" htag (hstring _) (string_of_json r.tagName)
  have hnull : toConfigValue r ≠ .null := fun h => by cases h
  show (if (toConfigValue r == .null) = true then _ else _) = _
  rw [if_neg (beq_null_iff.not.mpr hnull), hreference, hagent, happ, htag]
  rfl

/-- The values of a built type are read back, by induction on how the type is built. -/
theorem Built.read {P : α → Prop} (h : Built α P) {x : α} (hx : P x) : fromConfigValue (toConfigValue x) = .ok x := by
  induction h with
  | i8 | i16 | i32 | i64 | u8 | u16 | u32 => exact scalar_of_read (readInt_intToJson x)
  | f32 =>
    obtain ⟨q, hq, rfl⟩ := hx
    exact scalar_of_read (readF32_f32ToJson hq)
  | f64 =>
    obtain ⟨q, hq, rfl⟩ := hx
    exact scalar_of_read rfl
  | bool => exact scalar_of_read rfl
  | string => exact scalar_of_read rfl
  | tagRef => exact tagRef_from_toConfigValue x
  | vec _ ih => exact mapM_of_read fun y hy => ih (hx y hy)
  | btreeMap _ ih =>
    refine (mapFromConfigValue_of_read fun k y hy => ih (hx k y hy)).trans ?_
    rw [SortedMap.ofList_entries]
  | hashMap _ ih =>
    refine (mapFromConfigValue_of_read fun k y hy => ih (hx k y ?_)).trans ?_
    · rw [← SortedMap.get?_ofFinmap, hy]
    · rw [SortedMap.finmapOfList_entries]
  | option _ hnull ih =>
    cases x with
    | none => rfl
    | some y => exact fromConfigValue_some (hnull y (hx y rfl)) (ih (hx y rfl))

omit [JsonTexts] in
/-- A default is what a field that is absent or null is loaded as. -/
theorem loadElementIn_default {v : Json} {el : ElementSchema} {siblings : List ElementSchema}
    {x : α} (hread : fromConfigValue (toConfigValue x) = .ok x)
    (hdefault : el.default = some (toConfigValue x)) (hrequired : el.isRequired = false)
    (hunset : ∀ val, v.get? el.name = some val → val = .null) :
    loadElementIn fromConfigValue v el siblings = .ok x := by
  have hread' : ∀ what, readConfigValue fromConfigValue what (el.default.getD .null) = .ok x := by
    intro what
    rw [hdefault, Option.getD_some, readConfigValue, hread]
    rfl
  simp only [loadElementIn, hread', hrequired, Bool.not_false, Bool.and_true]
  split
  · rfl
  · split
    · rename_i val hval
      rw [if_pos (beq_null_iff.mpr (hunset val hval))]
    · rfl

/-- **A default that is exported loads back as the same value.** -/
theorem from_toConfigValue {P : α → Prop} (h : Built α P) {x : α} (hx : P x) :
    fromConfigValue (toConfigValue x) = .ok x ∧
      ∀ (v : Json) (el : ElementSchema) (siblings : List ElementSchema),
        el.default = some (toConfigValue x) → el.isRequired = false →
        (∀ val, v.get? el.name = some val → val = .null) →
        loadElementIn fromConfigValue v el siblings = .ok x := by
  have hread : fromConfigValue (toConfigValue x) = .ok x := h.read hx
  exact ⟨hread, fun v el siblings => loadElementIn_default hread⟩

end Conversions

namespace Gauges

@[reducible] def texts : JsonTexts := ⟨fun _ => "value", fun ty _ => "invalid value, expected " ++ ty⟩

/-- The gauges of the tanks of a site, one tank having none. -/
def gauges : List (Option TagRef) :=
  [some { referenceName := "level", appName := "tank_1", tagName := "depth" }, none]

/-- An option of a reference is told from one that is absent. -/
theorem gauges_read : letI := texts; fromConfigValue (toConfigValue gauges) = .ok gauges :=
  letI := texts
  (from_toConfigValue (.vec (.option .tagRef fun _ _ hnull => by cases hnull))
    (fun _ _ _ _ => trivial)).1

end Gauges
end Doover
