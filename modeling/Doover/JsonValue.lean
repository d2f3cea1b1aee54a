import Mathlib.Algebra.Field.Rat
import Mathlib.Data.Int.Notation
import Mathlib.Tactic.Ring
import Doover.IndexMap

/-! # JSON values

The values every part of the program passes around: `serde_json`'s `Value`, built
with insertion-ordered objects.  An object is an `IndexMap`, so a key occurs once.

Numbers keep the two forms the parser tells apart, integers in the union of the
64-bit ranges and finite doubles.  A double is its exact rational value, so
equality of two doubles is equality of what they denote; the two zeros are one.
-/

namespace Doover

/-- A finite binary64 number, by the rational it denotes. -/
structure F64 where
  val : ℚ
  isDouble : ∃ m e : ℤ, m.natAbs < 2 ^ 53 ∧ -1074 ≤ e ∧ e ≤ 971 ∧ val = m * (2 : ℚ) ^ e
deriving DecidableEq

/-- The integer `x as f64` denotes: `x` itself up to 53 significant bits, else the
nearest integer with 53 of them, a tie going to the even one. -/
def roundToF64 (x : ℤ) : ℤ :=
  let a := x.natAbs
  let s := a.log2 - 52
  let q := a / 2 ^ s
  let r := a % 2 ^ s
  let up := 2 ^ s < 2 * r || (2 * r == 2 ^ s && q % 2 == 1)
  x.sign * (((if up then q + 1 else q) * 2 ^ s : ℕ) : ℤ)

theorem log2_sub_lt {a : ℕ} (h : a < 2 ^ 65) : a.log2 - 52 ≤ 12 := by
  by_cases ha : a = 0
  · subst ha
    simp
  · have hlog := (Nat.log2_lt ha).mpr h
    omega

/-- The 53 leading bits. -/
theorem div_pow_lt (a : ℕ) : a / 2 ^ (a.log2 - 52) < 2 ^ 53 := by
  rw [Nat.div_lt_iff_lt_mul (Nat.two_pow_pos _), ← pow_add]
  refine lt_of_lt_of_le Nat.lt_log2_self (Nat.pow_le_pow_right Nat.two_pos ?_)
  omega

/-- Rounding keeps 53 bits, or carries into the next power of two. -/
theorem roundToF64_eq (x : ℤ) : ∃ q ≤ 2 ^ 53,
    roundToF64 x = x.sign * ((q * 2 ^ (x.natAbs.log2 - 52) : ℕ) : ℤ) := by
  have hlead := div_pow_lt x.natAbs
  refine ⟨_, ?_, rfl⟩
  split <;> omega

/-- What an integer rounds to is a double. -/
theorem roundToF64_isDouble {x : ℤ} (h : x.natAbs < 2 ^ 65) :
    ∃ m e : ℤ, m.natAbs < 2 ^ 53 ∧ -1074 ≤ e ∧ e ≤ 971 ∧
      (roundToF64 x : ℚ) = m * (2 : ℚ) ^ e := by
  have hshift := log2_sub_lt h
  have hsign : x.sign.natAbs ≤ 1 := by
    rw [Int.natAbs_sign]
    split <;> omega
  obtain ⟨q, hq, hround⟩ := roundToF64_eq x
  rw [hround]
  generalize x.natAbs.log2 - 52 = s at hshift
  have hmantissa : ∀ m : ℕ, (x.sign * m).natAbs ≤ m := by
    intro m
    rw [Int.natAbs_mul, Int.natAbs_natCast]
    exact (Nat.mul_le_mul_right m hsign).trans (one_mul m).le
  by_cases htop : q = 2 ^ 53
  · -- a carry out of the mantissa goes into the exponent
    refine ⟨x.sign * ((2 ^ 52 : ℕ) : ℤ), s + 1, ?_, by omega, by omega, ?_⟩
    · exact (hmantissa _).trans_lt (by decide)
    · rw [htop, zpow_add₀ two_ne_zero, zpow_natCast]
      push_cast
      ring
  · refine ⟨x.sign * q, s, ?_, by omega, by omega, ?_⟩
    · exact (hmantissa q).trans_lt (by omega)
    · rw [zpow_natCast]
      push_cast
      ring

theorem natAbs_lt_of_range {n : ℤ} (range : -2 ^ 63 ≤ n ∧ n < 2 ^ 64) : n.natAbs < 2 ^ 65 := by
  omega

/-- A JSON number: an integer that fits `i64` or `u64`, or a finite double. -/
inductive Number where
  | int (n : ℤ) (range : -2 ^ 63 ≤ n ∧ n < 2 ^ 64)
  | float (x : F64)
deriving DecidableEq

namespace Number

def asI64 : Number → Option ℤ
  | int n _ => if n < 2 ^ 63 then some n else none
  | float _ => none

def asU64 : Number → Option ℕ
  | int n _ => if 0 ≤ n then some n.toNat else none
  | float _ => none

/-- The double a number converts to, by its value. -/
def asF64 : Number → ℚ
  | int n _ => roundToF64 n
  | float x => x.val

/-- The number itself. -/
def value : Number → ℚ
  | int n _ => n
  | float x => x.val

/-- Whether the parser read an integer. -/
def isInt : Number → Bool
  | int _ _ => true
  | float _ => false

end Number

/-- A JSON value. -/
inductive Json where
  | null
  | bool (b : Bool)
  | number (n : Number)
  | string (s : String)
  | array (items : List Json)
  | object (fields : IndexMap String Json)

namespace Json

/-- Structural induction, an object's fields being reached by lookup. -/
@[elab_as_elim, induction_eliminator]
theorem induct {motive : Json → Prop} (null : motive .null) (bool : ∀ b, motive (.bool b))
    (number : ∀ n, motive (.number n)) (string : ∀ s, motive (.string s))
    (array : ∀ items, (∀ i ∈ items, motive i) → motive (.array items))
    (object : ∀ fields : IndexMap String Json,
      (∀ k v, fields.get? k = some v → motive v) → motive (.object fields)) :
    ∀ j, motive j :=
  @Json.rec motive (fun items => ∀ i ∈ items, motive i) (fun m => ∀ k, motive (m.vals k))
    null bool number string array
    (fun m ih => object m fun k v h => by
      obtain ⟨hk, rfl⟩ := IndexMap.get?_eq_some_iff.mp h
      exact ih ⟨k, hk⟩)
    (fun _ h => absurd h List.not_mem_nil)
    (fun x xs hx hxs i hi => by
      rcases List.mem_cons.mp hi with rfl | hi
      · exact hx
      · exact hxs i hi)
    (fun _ _ _ ih => ih)

/-! ## Accessors -/

def isObject : Json → Bool
  | .object _ => true
  | _ => false

def asObject : Json → Option (IndexMap String Json)
  | .object m => some m
  | _ => none

def asStr : Json → Option String
  | .string s => some s
  | _ => none

def asArray : Json → Option (List Json)
  | .array items => some items
  | _ => none

def asF64 : Json → Option ℚ
  | .number n => some n.asF64
  | _ => none

/-- Index by an object key; any value but an object has no keys. -/
def get? : Json → String → Option Json
  | .object m, k => m.get? k
  | _, _ => none

@[simp] theorem get?_object (m : IndexMap String Json) (k : String) :
    (Json.object m).get? k = m.get? k := rfl

theorem exists_of_isObject {j : Json} (h : j.isObject = true) : ∃ m, j = .object m := by
  cases j with
  | object m => exact ⟨m, rfl⟩
  | _ => cases h

theorem get?_of_not_isObject {j : Json} (h : j.isObject = false) (k : String) :
    j.get? k = none := by
  cases j with
  | object m => cases h
  | _ => rfl

/-- The object of a list of entries. -/
def ofList (l : List (String × Json)) : Json := .object (IndexMap.ofList l)

theorem get?_ofList_singleton (key k : String) (value : Json) :
    (ofList [(key, value)]).get? k = if k = key then some value else none := by
  show (IndexMap.empty.insert key value).get? k = _
  rw [IndexMap.get?_insert, IndexMap.get?_empty]

/-- The integer `n`, one the parser reads as an integer. -/
def ofInt (n : ℤ) (range : -2 ^ 63 ≤ n ∧ n < 2 ^ 64) : Json := .number (.int n range)

/-- A `u64`. -/
def ofU64 (n : UInt64) : Json :=
  .ofInt n.toNat ⟨by omega, by exact_mod_cast n.toNat_lt⟩

/-! ## Equality of values

`Value`'s `==`: two objects are equal when they have the same keys with equal
values, in whatever order. -/

mutual
/-- `==` on values. -/
def beq : Json → Json → Bool
  | .null, .null => true
  | .bool a, .bool b => a == b
  | .number a, .number b => decide (a = b)
  | .string a, .string b => a == b
  | .array xs, .array ys => beqList xs ys
  | .object ⟨ks, _, vs⟩, .object n =>
    ks.length == n.len && ks.attach.all fun k =>
      match n.get? k.1 with
      | some v => beq (vs k) v
      | none => false
  | _, _ => false
/-- `==` on arrays, element by element. -/
def beqList : List Json → List Json → Bool
  | [], [] => true
  | x :: xs, y :: ys => beq x y && beqList xs ys
  | _, _ => false
end

instance : BEq Json := ⟨beq⟩

theorem beq_null_iff {v : Json} : (v == .null) = true ↔ v = .null := by
  constructor
  · intro h
    cases v with
    | null => rfl
    | _ => cases h
  · rintro rfl
    rfl

end Json
end Doover
