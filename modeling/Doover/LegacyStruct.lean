import Mathlib.Data.String.Basic
import Doover.DiffEquality
import Doover.Doubles
import Doover.SortedMap

/-! # Struct payloads

An old device agent reads and writes a protobuf `Struct`, whose only numbers are doubles.  A
value is sent as one and read back: a whole double of at most `2 ^ 53` is read as an integer,
which it may not have been, and any other number as the double.

Within `2 ^ 53` an integer is its own double, so nothing but the form of a whole double and the
order of the keys is lost (`struct_roundTrip`).  A write carries its `Struct` until the agent has
sent JSON, so an agent that never does can read every write (`decode_of_old_agent`).
-/

namespace Doover
namespace LegacyStruct
open Json

/-! ## The wire type -/

/-- A protobuf `Value`. -/
inductive PbValue where
  /-- Without a kind. -/
  | unset
  | nullValue (value : Int32)
  | numberValue (value : Binary64)
  | stringValue (value : String)
  | boolValue (value : Bool)
  | structValue (fields : SortedMap String PbValue)
  | listValue (values : List PbValue)

/-- A protobuf `Struct`, by its fields. -/
abbrev Struct := SortedMap String PbValue

/-! ## Encoding -/

mutual
def valueToPb : Json → PbValue
  | .null => .nullValue 0
  | .bool b => .boolValue b
  | .number n => .numberValue n.toBinary64
  | .string s => .stringValue s
  | .array items => .listValue (valueToPbList items)
  | .object ⟨keys, nodup, vals⟩ =>
    .structValue (SortedMap.ofIndexMap ⟨keys, nodup, fun k => valueToPb (vals k)⟩)
/-- The items of an array. -/
def valueToPbList : List Json → List PbValue
  | [] => []
  | v :: items => valueToPb v :: valueToPbList items
end

/-- The fields of an object; another value has none. -/
def valueToStruct : Json → Struct
  | .object map => SortedMap.ofIndexMap (map.map valueToPb)
  | _ => SortedMap.ofIndexMap .empty

theorem valueToPb_object (map : IndexMap String Json) :
    valueToPb (.object map) = .structValue (valueToStruct (.object map)) := rfl

theorem valueToPbList_eq_map (items : List Json) : valueToPbList items = items.map valueToPb := by
  induction items with
  | nil => rfl
  | cons v items ih => rw [valueToPbList, ih, List.map_cons]

/-! ## Decoding -/

/-- What is left of a double without its whole part. -/
def fract (x : ℚ) : ℚ := x - (x.num.tdiv x.den : ℤ)

/-- Whole doubles become integers. -/
def number : Binary64 → Json
  | .finite x hx =>
    if fract x = 0 ∧ |x| ≤ 2 ^ 53 then
      .ofInt (f64AsI64 x) ⟨(f64AsI64_range x).1, (f64AsI64_range x).2.trans (by norm_num)⟩
    else .number (.float ⟨x, hx⟩)
  -- their `fract` is no number, and JSON has none for them
  | .nan | .infinity _ => .null

mutual
def pbToValue : PbValue → Json
  | .unset | .nullValue _ => .null
  | .boolValue b => .bool b
  | .numberValue f => number f
  | .stringValue s => .string s
  | .listValue values => .array (pbToValueList values)
  | .structValue ⟨keys, sorted, vals⟩ =>
    .object ⟨keys, sorted.imp ne_of_lt, fun k => pbToValue (vals k)⟩
/-- The values of a list. -/
def pbToValueList : List PbValue → List Json
  | [] => []
  | v :: values => pbToValue v :: pbToValueList values
end

def structToValue (s : Struct) : Json := .object (s.toIndexMap.map pbToValue)

theorem pbToValue_structValue (s : Struct) : pbToValue (.structValue s) = structToValue s := rfl

theorem pbToValueList_eq_map (values : List PbValue) :
    pbToValueList values = values.map pbToValue := by
  induction values with
  | nil => rfl
  | cons v values ih => rw [pbToValueList, ih, List.map_cons]

/-! ## Numbers -/

theorem fract_eq_zero_iff {x : ℚ} : fract x = 0 ↔ x.isInt = true := by
  rw [fract, sub_eq_zero, Rat.isInt, beq_iff_eq]
  constructor
  · intro h
    rw [h, Rat.den_intCast]
  · intro h
    rw [h, Nat.cast_one, Int.tdiv_one]
    exact ((Rat.den_eq_one_iff x).mp h).symm

/-- A safe integer is cast as it is. -/
theorem f64AsI64_of_safe {x : ℚ} (h : x.isInt = true) (hsafe : |x| ≤ 2 ^ 53) :
    (f64AsI64 x : ℚ) = x := by
  have hint : ((x.num : ℤ) : ℚ) = x := (Rat.den_eq_one_iff x).mp (beq_iff_eq.mp h)
  rw [← hint] at hsafe ⊢
  have hsafe' : |x.num| ≤ 2 ^ 53 := by exact_mod_cast hsafe
  rw [abs_le] at hsafe'
  rw [f64AsI64_intCast]
  congr 1
  omega

/-- A double keeps its value, and is an integer when it is a whole one that is safe. -/
theorem number_finite {x : ℚ} (hx : IsBinary64 x) :
    ∃ n, number (.finite x hx) = .number n ∧ n.value = x ∧
      n.isInt = (x.isInt && decide (|x| ≤ 2 ^ 53)) := by
  have hwhole := fract_eq_zero_iff (x := x)
  by_cases h : fract x = 0 ∧ |x| ≤ 2 ^ 53
  · refine ⟨.int (f64AsI64 x) ?_, ?_, f64AsI64_of_safe (hwhole.mp h.1) h.2, ?_⟩
    · exact ⟨(f64AsI64_range x).1, (f64AsI64_range x).2.trans (by norm_num)⟩
    · rw [number, if_pos h, Json.ofInt]
    · rw [hwhole.mp h.1, decide_eq_true h.2]
      rfl
  · refine ⟨.float ⟨x, hx⟩, ?_, rfl, ?_⟩
    · rw [number, if_neg h]
    · rw [hwhole] at h
      simpa [Number.isInt] using h

/-! ## Round trips -/

/-- The values whose numbers, wherever they are, all satisfy `P`. -/
inductive EveryNumber (P : Number → Prop) : Json → Prop
  | null : EveryNumber P .null
  | bool (b : Bool) : EveryNumber P (.bool b)
  | number {n : Number} (h : P n) : EveryNumber P (.number n)
  | string (s : String) : EveryNumber P (.string s)
  | array {items : List Json} (h : ∀ v ∈ items, EveryNumber P v) : EveryNumber P (.array items)
  | object {fields : IndexMap String Json} (h : ∀ k v, fields.get? k = some v → EveryNumber P v) :
    EveryNumber P (.object fields)

/-- An integer that is its own double. -/
def Safe : Number → Prop
  | .int n _ => |n| ≤ 2 ^ 53
  | .float _ => True

instance : DecidablePred Safe
  | .int n _ => inferInstanceAs (Decidable (|n| ≤ 2 ^ 53))
  | .float _ => .isTrue trivial

/-- What a number comes back as: one that denotes the same, an integer if that is whole and at
most `2 ^ 53`, or else a double. -/
def comesBackAs (m n : Number) : Bool :=
  n.value == m.value && n.isInt == (m.value.isInt && decide (|m.value| ≤ 2 ^ 53))

theorem toF64_of_safe {n : Number} (h : Safe n) : n.toF64.val = n.value := by
  rw [Number.toF64_val]
  cases n with
  | int n range =>
    rw [Safe, abs_le] at h
    have hsafe : roundToF64 n = n := by
      obtain ⟨k, rfl | rfl⟩ := n.eq_nat_or_neg
      · exact roundToF64_of_le (by omega)
      · rw [roundToF64_neg, roundToF64_of_le (by omega)]
    rw [Number.asF64, Number.value, hsafe]
  | float x => rfl

theorem number_toBinary64 {m : Number} (h : Safe m) :
    ∃ n, number m.toBinary64 = .number n ∧ comesBackAs m n = true := by
  obtain ⟨n, hn, hvalue, hform⟩ := number_finite m.toF64.isDouble
  refine ⟨n, hn, ?_⟩
  rw [comesBackAs, Bool.and_eq_true, beq_iff_eq, beq_iff_eq, hvalue, hform, toF64_of_safe h]
  exact ⟨rfl, rfl⟩

/-- A field of what comes back is the field, sent and read. -/
theorem get?_structToValue (map : IndexMap String Json) (k : String) :
    (structToValue (valueToStruct (.object map))).get? k =
      (map.get? k).map fun v => pbToValue (valueToPb v) := by
  rw [structToValue, get?_object, IndexMap.get?_map, ← SortedMap.get?, valueToStruct,
    SortedMap.get?_ofIndexMap, IndexMap.get?_map, Option.map_map]
  rfl

/-- **Every part of a value comes back as it was sent**, but for the form of numbers and the order
of keys. -/
theorem eqBy_pbToValue {v : Json} (h : EveryNumber Safe v) :
    eqBy comesBackAs v (pbToValue (valueToPb v)) = true := by
  induction h with
  | null => rfl
  | bool b => exact beq_self_eq_true b
  | string s => exact beq_self_eq_true s
  | number hsafe =>
    obtain ⟨n, hn, hback⟩ := number_toBinary64 hsafe
    rw [valueToPb, pbToValue, hn]
    exact hback
  | @array items _ ih =>
    rw [valueToPb, pbToValue, valueToPbList_eq_map, pbToValueList_eq_map, List.map_map, eqBy,
      eqListBy_iff_forall₂, List.forall₂_map_right_iff]
    exact List.forall₂_same.mpr ih
  | @object fields _ ih =>
    rw [valueToPb_object, pbToValue_structValue, structToValue, eqBy_object_iff]
    refine len_eq_and_iff_rel.mpr fun k => ?_
    have hk := get?_structToValue fields k
    rw [structToValue, get?_object] at hk
    rw [hk]
    cases hv : fields.get? k with
    | none => exact .none
    | some v => exact .some (ih k v hv)

/-- For Python a value that is sent and read is the same. -/
theorem pythonJsonEq_structToValue {map : IndexMap String Json}
    (h : EveryNumber Safe (.object map)) :
    pythonJsonEq (structToValue (valueToStruct (.object map))) (.object map) = true := by
  have hparts : eqBy comesBackAs (.object map) (structToValue (valueToStruct (.object map))) =
      true := eqBy_pbToValue h
  refine pythonJsonEq_symm (pythonJsonEq_of_schemaEq (eqBy_mono (fun m n hmn => ?_) hparts))
  rw [comesBackAs, Bool.and_eq_true, beq_iff_eq] at hmn
  exact decide_eq_true hmn.1.symm

/-- **A value that is sent as a `Struct` is read back**: for Python it is the same value, and its
parts are what they were but for whole doubles, which are integers. -/
theorem struct_roundTrip {map : IndexMap String Json} (h : EveryNumber Safe (.object map)) :
    pythonJsonEq (structToValue (valueToStruct (.object map))) (.object map) = true ∧
      eqBy comesBackAs (.object map) (structToValue (valueToStruct (.object map))) = true :=
  ⟨pythonJsonEq_structToValue h, eqBy_pbToValue h⟩

namespace Modbus

/-- The settings of a meter: its address, its gain and its registers. -/
def settings : IndexMap String Json := .ofList [
  ("modbus_id", .number (.int 11 (by decide))),
  ("gain", .number (.float ⟨2, Binary64.isBinary64_two⟩)),
  ("registers", .array [.number (.int (-4) (by decide)), .string "kWh", .null])]

/-- The gain comes back as an integer, which Python does not tell from the double. -/
theorem settings_roundTrip :
    pythonJsonEq (structToValue (valueToStruct (.object settings))) (.object settings) = true ∧
      eqBy comesBackAs (.object settings) (structToValue (valueToStruct (.object settings))) =
        true := by
  refine struct_roundTrip (.object fun k v h => ?_)
  have hmem := IndexMap.mem_of_get?_ofList h
  simp only [List.mem_cons, Prod.mk.injEq, List.not_mem_nil, or_false] at hmem
  rcases hmem with ⟨-, rfl⟩ | ⟨-, rfl⟩ | ⟨-, rfl⟩
  · exact .number (by decide)
  · exact .number trivial
  · refine .array fun w hw => ?_
    simp only [List.mem_cons, List.not_mem_nil, or_false] at hw
    rcases hw with rfl | rfl | rfl
    · exact .number (by decide)
    · exact .string _
    · exact .null

end Modbus

/-! ## The encoding an agent speaks -/

/-- What an agent is known to read. -/
inductive WireMode where
  | unknown
  | json
  | legacy
deriving DecidableEq

/-- A payload in both encodings, each of which may be left out. -/
structure Payload where
  dataJson : String
  data : Option Struct

namespace WireMode

/-- Whether a write also carries the `Struct`. -/
def sendStruct (mode : WireMode) : Bool := decide (mode ≠ .json)

/-- A payload that is empty both ways says nothing. -/
def observe (mode : WireMode) (p : Payload) : WireMode :=
  if !p.dataJson.isEmpty then .json
  else if p.data.any fun s => !s.keys.isEmpty then .legacy
  else mode

/-- The `Struct` that a write carries. -/
def structFor (mode : WireMode) (data : Json) : Option Struct :=
  if mode.sendStruct then some (valueToStruct data) else none

/-- Only JSON stops the `Struct`. -/
theorem sendStruct_observe {mode : WireMode} {p : Payload} (h : p.dataJson.isEmpty = true)
    (hmode : mode.sendStruct = true) : (mode.observe p).sendStruct = true := by
  rw [observe, h, Bool.not_true, if_neg Bool.false_ne_true]
  split
  · rfl
  · exact hmode

/-- An agent that has sent no JSON is sent the `Struct`. -/
theorem sendStruct_run {ps : List Payload} (h : ∀ p ∈ ps, p.dataJson.isEmpty = true)
    {mode : WireMode} (hmode : mode.sendStruct = true) :
    (ps.foldl observe mode).sendStruct = true := by
  induction ps generalizing mode with
  | nil => exact hmode
  | cons p ps ih =>
    rw [List.forall_mem_cons] at h
    exact ih h.2 (sendStruct_observe h.1 hmode)

end WireMode

/-- The value of a payload, its JSON being read by `fromStr`. -/
def decode (fromStr : String → Option Json) (p : Payload) : Option Json :=
  if !p.dataJson.isEmpty then fromStr p.dataJson else p.data.map structToValue

/-- **An old agent reads what is written**, whatever it has sent before: it never sends JSON, and
of a write it takes the `Struct` alone. -/
theorem decode_of_old_agent {ps : List Payload} (h : ∀ p ∈ ps, p.dataJson.isEmpty = true)
    {map : IndexMap String Json} (hsafe : EveryNumber Safe (.object map))
    (fromStr : String → Option Json) :
    ∃ v, decode fromStr ⟨"", (ps.foldl WireMode.observe .unknown).structFor (.object map)⟩ =
        some v ∧ pythonJsonEq v (.object map) = true := by
  refine ⟨_, ?_, pythonJsonEq_structToValue hsafe⟩
  rw [WireMode.structFor, WireMode.sendStruct_run h rfl, if_pos rfl]
  rfl

end LegacyStruct
end Doover
