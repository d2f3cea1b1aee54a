import Doover.BinaryFormat

/-! # Binary64 arithmetic

The doubles of IEEE 754 by the values they denote, and the arithmetic on them: the exact
result, rounded to the nearest double with ties to the even significand, and infinite
from `2 ^ 1024` on.  The two zeros are one, a zero divisor counts as the positive one, and a
NaN carries no payload.

Rounding is that of the format (`binary64`): it moves nothing across a double, so it is monotone
and leaves doubles alone.
-/

/-- The finite binary64 values: a significand of 53 bits at an exponent in range. -/
def IsBinary64 (x : ℚ) : Prop :=
  ∃ m e : ℤ, m.natAbs < 2 ^ 53 ∧ -1074 ≤ e ∧ e ≤ 971 ∧ x = m * (2 : ℚ) ^ e

/-- A double. -/
inductive Binary64 where
  | nan
  | infinity (negative : Bool)
  | finite (val : ℚ) (isBinary64 : IsBinary64 val)
deriving DecidableEq

namespace Binary64

theorem isBinary64_zero : IsBinary64 0 := ⟨0, 0, by norm_num, by norm_num, by norm_num, by simp⟩

theorem isBinary64_two : IsBinary64 2 := ⟨2, 0, by norm_num, by norm_num, by norm_num, by simp⟩

theorem isBinary64_hundred : IsBinary64 100 :=
  ⟨100, 0, by norm_num, by norm_num, by norm_num, by simp⟩

theorem isBinary64_neg {x : ℚ} : IsBinary64 x → IsBinary64 (-x) := by
  rintro ⟨m, e, hm, he, he', rfl⟩
  exact ⟨-m, e, by omega, he, he', by push_cast; ring⟩

theorem isBinary64_abs {x : ℚ} (hx : IsBinary64 x) : IsBinary64 |x| := by
  rcases abs_choice x with h | h
  · rwa [h]
  · rw [h]
    exact isBinary64_neg hx

/-! ## Rounding to a double -/

/-- The format of doubles. -/
def binary64 : BinaryFormat := ⟨52, -1074, 971, by decide⟩

theorem isBinary64_iff {x : ℚ} : IsBinary64 x ↔ binary64.IsValue x := Iff.rfl

/-- The distance of the doubles around `q`. -/
def ulp (q : ℚ) : ℚ := (2 : ℚ) ^ max (Int.log 2 |q| - 52) (-1074)

/-- The nearest multiple of the distance of the doubles around `q`. -/
def rounded (q : ℚ) : ℚ := roundEven (q / ulp q) * ulp q

theorem rounded_eq_format (q : ℚ) : rounded q = binary64.rounded q := rfl

theorem le_rounded {x q : ℚ} (hx : IsBinary64 x) (h : x ≤ q) : x ≤ rounded q := by
  rw [rounded_eq_format]
  exact BinaryFormat.le_rounded (isBinary64_iff.mp hx) h

theorem rounded_le {x q : ℚ} (hx : IsBinary64 x) (h : q ≤ x) : rounded q ≤ x := by
  rw [rounded_eq_format]
  exact BinaryFormat.rounded_le (isBinary64_iff.mp hx) h

theorem rounded_eq {x : ℚ} (hx : IsBinary64 x) : rounded x = x :=
  le_antisymm (rounded_le hx le_rfl) (le_rounded hx le_rfl)

theorem rounded_neg (q : ℚ) : rounded (-q) = -rounded q := by
  rw [rounded_eq_format, rounded_eq_format]
  exact BinaryFormat.rounded_neg q

theorem rounded_mono {p q : ℚ} (h : p ≤ q) : rounded p ≤ rounded q := by
  rw [rounded_eq_format, rounded_eq_format]
  exact BinaryFormat.rounded_mono h

theorem binary64_overflow : (binary64.bits : ℤ) + 1 + binary64.emax = 1024 := rfl

/-- Short of an overflow, rounding gives a double. -/
theorem isBinary64_rounded {q : ℚ} (h : |rounded q| < (2 : ℚ) ^ (1024 : ℤ)) :
    IsBinary64 (rounded q) := by
  rw [rounded_eq_format, ← binary64_overflow] at h
  exact isBinary64_iff.mpr (BinaryFormat.isValue_rounded h)

theorem abs_lt_overflow {x : ℚ} (hx : IsBinary64 x) : |x| < (2 : ℚ) ^ (1024 : ℤ) := by
  rw [← binary64_overflow]
  exact BinaryFormat.abs_lt_overflow (isBinary64_iff.mp hx)

/-- The nearest double, infinite from `2 ^ 1024` on. -/
def round (q : ℚ) : Binary64 :=
  if h : |rounded q| < (2 : ℚ) ^ (1024 : ℤ) then finite (rounded q) (isBinary64_rounded h)
  else infinity (decide (q < 0))

/-- A double is its own rounding. -/
@[simp] theorem round_of_isBinary64 {x : ℚ} (hx : IsBinary64 x) : round x = finite x hx := by
  have hr : rounded x = x := rounded_eq hx
  have hlt : |rounded x| < (2 : ℚ) ^ (1024 : ℤ) := hr.symm ▸ abs_lt_overflow hx
  rw [round, dif_pos hlt]
  congr 1

/-! ## Comparisons -/

/-- The order; a NaN compares with nothing. -/
def le : Binary64 → Binary64 → Bool
  | nan, _ | _, nan => false
  | infinity negative, infinity negative' => negative || !negative'
  | infinity negative, finite _ _ => negative
  | finite _ _, infinity negative => !negative
  | finite x _, finite y _ => decide (x ≤ y)

instance : LE Binary64 := ⟨fun a b => a.le b = true⟩
instance : DecidableLE Binary64 := fun a b => inferInstanceAs (Decidable (a.le b = true))

theorem le_def (a b : Binary64) : a ≤ b ↔ a.le b = true := Iff.rfl

@[simp] theorem finite_le_finite {x y : ℚ} (hx : IsBinary64 x) (hy : IsBinary64 y) :
    finite x hx ≤ finite y hy ↔ x ≤ y := decide_eq_true_iff

@[simp] theorem finite_le_infinity {x : ℚ} (hx : IsBinary64 x) (negative : Bool) :
    finite x hx ≤ infinity negative ↔ negative = false := by
  simp [le_def, le]

@[simp] theorem infinity_le_finite {x : ℚ} (hx : IsBinary64 x) (negative : Bool) :
    infinity negative ≤ finite x hx ↔ negative = true := by
  simp [le_def, le]

@[simp] theorem not_nan_le (a : Binary64) : ¬ nan ≤ a := by simp [le_def, le]

@[simp] theorem not_le_nan (a : Binary64) : ¬ a ≤ nan := by cases a <;> simp [le_def, le]

/-- Equality of floats: a NaN is not itself. -/
def eq (a b : Binary64) : Bool := a.le b && b.le a

/-- Rounding moves nothing across a double. -/
theorem finite_le_round {x q : ℚ} (hx : IsBinary64 x) (h : x ≤ q) : finite x hx ≤ round q := by
  have hr := le_rounded hx h
  unfold round
  split
  · exact (finite_le_finite hx _).mpr hr
  · rename_i hover
    rw [finite_le_infinity, decide_eq_false_iff_not, not_lt]
    by_contra hneg
    -- a negative overflow would be below `x`, which is in range
    have hx' := abs_lt.mp (abs_lt_overflow hx)
    have hq : rounded q ≤ 0 := rounded_le isBinary64_zero (not_le.mp hneg).le
    rw [abs_of_nonpos hq] at hover
    linarith

theorem round_le_finite {x q : ℚ} (hx : IsBinary64 x) (h : q ≤ x) : round q ≤ finite x hx := by
  have hr := rounded_le hx h
  unfold round
  split
  · exact (finite_le_finite _ hx).mpr hr
  · rename_i hover
    rw [infinity_le_finite, decide_eq_true_iff]
    by_contra hpos
    have hx' := abs_lt.mp (abs_lt_overflow hx)
    have hq : 0 ≤ rounded q := le_rounded isBinary64_zero (not_lt.mp hpos)
    rw [abs_of_nonneg hq] at hover
    linarith

/-! ## Arithmetic -/

def neg : Binary64 → Binary64
  | nan => nan
  | infinity negative => infinity !negative
  | finite x hx => finite (-x) (isBinary64_neg hx)

def abs : Binary64 → Binary64
  | nan => nan
  | infinity _ => infinity false
  | finite x hx => finite |x| (isBinary64_abs hx)

def add : Binary64 → Binary64 → Binary64
  | nan, _ | _, nan => nan
  | infinity negative, infinity negative' =>
    if negative = negative' then infinity negative else nan
  | infinity negative, finite _ _ | finite _ _, infinity negative => infinity negative
  | finite x _, finite y _ => round (x + y)

def sub (a b : Binary64) : Binary64 := add a (neg b)

def mul : Binary64 → Binary64 → Binary64
  | nan, _ | _, nan => nan
  | infinity negative, infinity negative' => infinity (negative != negative')
  | infinity negative, finite x _ | finite x _, infinity negative =>
    if x = 0 then nan else infinity (negative != decide (x < 0))
  | finite x _, finite y _ => round (x * y)

def div : Binary64 → Binary64 → Binary64
  | nan, _ | _, nan => nan
  | infinity _, infinity _ => nan
  | infinity negative, finite x _ => infinity (negative != decide (x < 0))
  | finite _ _, infinity _ => finite 0 isBinary64_zero
  | finite x _, finite y _ =>
    if y = 0 then if x = 0 then nan else infinity (decide (x < 0)) else round (x / y)

instance : Add Binary64 := ⟨add⟩
instance : Sub Binary64 := ⟨sub⟩
instance : Mul Binary64 := ⟨mul⟩
instance : Div Binary64 := ⟨div⟩
instance : RatCast Binary64 := ⟨round⟩

theorem ratCast_of_isBinary64 {x : ℚ} (hx : IsBinary64 x) : (x : Binary64) = finite x hx :=
  round_of_isBinary64 hx

theorem ratCast_zero : ((0 : ℚ) : Binary64) = finite 0 isBinary64_zero :=
  round_of_isBinary64 isBinary64_zero

theorem ratCast_two : ((2 : ℚ) : Binary64) = finite 2 isBinary64_two :=
  round_of_isBinary64 isBinary64_two

@[simp] theorem finite_sub_self {x : ℚ} (hx : IsBinary64 x) :
    finite x hx - finite x hx = finite 0 isBinary64_zero := by
  have h : finite x hx - finite x hx = round (x + -x) := rfl
  rw [h, add_neg_cancel, round_of_isBinary64 isBinary64_zero]

@[simp] theorem abs_finite_zero :
    abs (finite 0 isBinary64_zero) = finite 0 isBinary64_zero := by
  simp [abs]

theorem zero_div_finite {x : ℚ} (hx : IsBinary64 x) (h : x ≠ 0) :
    finite 0 isBinary64_zero / finite x hx = finite 0 isBinary64_zero := by
  have hdiv : finite 0 isBinary64_zero / finite x hx =
      if x = 0 then if (0 : ℚ) = 0 then nan else infinity (decide ((0 : ℚ) < 0))
      else round (0 / x) := rfl
  rw [hdiv, if_neg h, zero_div, round_of_isBinary64 isBinary64_zero]

theorem zero_mul_finite {x : ℚ} (hx : IsBinary64 x) :
    finite 0 isBinary64_zero * finite x hx = finite 0 isBinary64_zero := by
  have hmul : finite 0 isBinary64_zero * finite x hx = round (0 * x) := rfl
  rw [hmul, zero_mul, round_of_isBinary64 isBinary64_zero]

section Order
variable {x : ℚ} {h : Binary64} (hx : IsBinary64 x)

theorem finite_le_add (hh : ((0 : ℚ) : Binary64) ≤ h) : finite x hx ≤ finite x hx + h := by
  rw [ratCast_zero] at hh
  cases h with
  | nan => exact absurd hh (not_le_nan _)
  | infinity negative => exact (finite_le_infinity hx _).mpr ((finite_le_infinity _ _).mp hh)
  | finite q hq =>
    rw [finite_le_finite] at hh
    exact finite_le_round hx (by linarith)

theorem sub_le_finite (hh : ((0 : ℚ) : Binary64) ≤ h) : finite x hx - h ≤ finite x hx := by
  rw [ratCast_zero] at hh
  cases h with
  | nan => exact absurd hh (not_le_nan _)
  | infinity negative =>
    have hpos : negative = false := (finite_le_infinity _ _).mp hh
    subst hpos
    exact (infinity_le_finite hx true).mpr rfl
  | finite q hq =>
    rw [finite_le_finite] at hh
    exact round_le_finite hx (by linarith)

theorem half_nonneg (hh : ((0 : ℚ) : Binary64) ≤ h) :
    ((0 : ℚ) : Binary64) ≤ h / ((2 : ℚ) : Binary64) := by
  rw [ratCast_zero] at hh ⊢
  rw [ratCast_two]
  cases h with
  | nan => exact absurd hh (not_le_nan _)
  | infinity negative =>
    have hpos : negative = false := (finite_le_infinity _ _).mp hh
    subst hpos
    rfl
  | finite q hq =>
    rw [finite_le_finite] at hh
    exact finite_le_round isBinary64_zero (by positivity)

end Order

theorem le_trans {a b c : Binary64} (hab : a ≤ b) (hbc : b ≤ c) : a ≤ c := by
  cases a with
  | nan => exact absurd hab (not_nan_le _)
  | infinity negative =>
    cases b <;> cases c <;> simp_all [le_def, le]
    cases negative <;> simp_all
  | finite x hx =>
    cases b with
    | nan => exact absurd hbc (not_nan_le _)
    | infinity negative' => cases c <;> simp_all [le_def, le]
    | finite y hy =>
      cases c with
      | nan => exact absurd hbc (not_le_nan _)
      | infinity negative'' => simp_all
      | finite z hz =>
        exact (finite_le_finite hx hz).mpr
          (((finite_le_finite hx hy).mp hab).trans ((finite_le_finite hy hz).mp hbc))

theorem le_antisymm {a b : Binary64} (hab : a ≤ b) (hba : b ≤ a) : a = b := by
  cases a with
  | nan => exact absurd hab (not_nan_le _)
  | infinity negative =>
    cases b with
    | nan => exact absurd hba (not_nan_le _)
    | infinity negative' => cases negative <;> cases negative' <;> simp_all [le_def, le]
    | finite y hy => simp_all
  | finite x hx =>
    cases b with
    | nan => exact absurd hba (not_nan_le _)
    | infinity negative => simp_all
    | finite y hy =>
      have h : x = y :=
        ((finite_le_finite hx hy).mp hab).antisymm ((finite_le_finite hy hx).mp hba)
      subst h
      rfl

end Binary64
