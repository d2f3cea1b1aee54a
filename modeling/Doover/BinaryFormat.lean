import Mathlib.Data.Int.Log
import Mathlib.Tactic.NormNum
import Mathlib.Tactic.Positivity
import Doover.RoundEven

/-! # Binary formats

A format of floats has a significand of so many bits and a range of exponents; a value of it is
a significand at an exponent (`IsValue`).  A number is rounded to the nearest multiple of the
distance that the values around it have (`rounded`), a tie going to the even significand.

Rounding moves nothing across a value (`le_rounded`, `rounded_le`), so it leaves values alone;
it is monotone, and short of an overflow it gives a value (`isValue_rounded`).
-/

open Binary64

/-- A format with significands of `bits + 1` bits. -/
structure BinaryFormat where
  bits : ℕ
  emin : ℤ
  emax : ℤ
  emin_lt : emin < emax

namespace BinaryFormat

theorem abs_mul_zpow_lt {n : ℕ} {m : ℤ} (hm : m.natAbs < 2 ^ n) (e : ℤ) :
    |(m : ℚ) * 2 ^ e| < 2 ^ n * 2 ^ e := by
  have hm' : |(m : ℚ)| < 2 ^ n := by
    rw [← Int.cast_abs, Int.abs_eq_natAbs]
    exact_mod_cast hm
  rw [abs_mul, abs_of_pos (zpow_pos (by norm_num : (0 : ℚ) < 2) e)]
  exact mul_lt_mul_of_pos_right hm' (zpow_pos (by norm_num) e)

theorem two_pow_mul_zpow (n : ℕ) (e : ℤ) : (2 : ℚ) ^ n * 2 ^ e = 2 ^ (n + e) := by
  rw [zpow_add₀ (by norm_num), zpow_natCast]

variable (f : BinaryFormat)

/-- The finite values. -/
def IsValue (x : ℚ) : Prop :=
  ∃ m e : ℤ, m.natAbs < 2 ^ (f.bits + 1) ∧ f.emin ≤ e ∧ e ≤ f.emax ∧ x = m * (2 : ℚ) ^ e

/-- The distance of the values around `q`. -/
def ulp (q : ℚ) : ℚ := (2 : ℚ) ^ max (Int.log 2 |q| - f.bits) f.emin

/-- The nearest multiple of the distance of the values around `q`. -/
def rounded (q : ℚ) : ℚ := roundEven (q / f.ulp q) * f.ulp q

variable {f}

theorem isValue_zero : f.IsValue 0 := ⟨0, f.emin, by simp, le_rfl, f.emin_lt.le, by simp⟩

theorem isValue_neg {x : ℚ} : f.IsValue x → f.IsValue (-x) := by
  rintro ⟨m, e, hm, he, he', rfl⟩
  exact ⟨-m, e, by rwa [Int.natAbs_neg], he, he', by push_cast; ring⟩

/-! ## The distance of the values around a number -/

theorem ulp_pos (q : ℚ) : 0 < f.ulp q := zpow_pos (by norm_num) _

theorem ulp_neg (q : ℚ) : f.ulp (-q) = f.ulp q := by rw [ulp, ulp, abs_neg]

theorem two_pow_succ_mul (x : ℚ) : 2 ^ (f.bits + 1) * x = 2 ^ f.bits * (2 * x) := by
  rw [pow_succ]
  ring

theorem abs_lt_ulp (q : ℚ) : |q| < 2 ^ (f.bits + 1) * f.ulp q := by
  have hlog : |q| < (2 : ℚ) ^ (Int.log 2 |q| + 1) := by
    exact_mod_cast Int.lt_zpow_succ_log_self (by norm_num : 1 < 2) |q|
  have hsplit : 2 ^ (f.bits + 1) * f.ulp q =
      (2 : ℚ) ^ (((f.bits + 1 : ℕ) : ℤ) + max (Int.log 2 |q| - f.bits) f.emin) :=
    two_pow_mul_zpow ..
  rw [hsplit]
  exact hlog.trans_le (zpow_le_zpow_right₀ (by norm_num) (by omega))

/-- Above the smallest distance, `q` has all its significant bits. -/
theorem ulp_le_abs {q : ℚ} (hq : q ≠ 0) (h : f.emin < Int.log 2 |q| - f.bits) :
    2 ^ f.bits * f.ulp q ≤ |q| := by
  have hlog : (2 : ℚ) ^ Int.log 2 |q| ≤ |q| := by
    exact_mod_cast Int.zpow_log_le_self (by norm_num : 1 < 2) (abs_pos.mpr hq)
  have hulp : 2 ^ f.bits * f.ulp q = (2 : ℚ) ^ Int.log 2 |q| := by
    rw [ulp, max_eq_left (by omega), two_pow_mul_zpow]
    congr 1
    omega
  exact hulp.trans_le hlog

/-- A value is a multiple of the distance at `q`, or small against `q`. -/
theorem multiple_or_small {x : ℚ} (hx : f.IsValue x) {q : ℚ} (hq : q ≠ 0) :
    (∃ k : ℤ, x = k * f.ulp q) ∨ |x| < 2 ^ f.bits * f.ulp q ∧ 2 ^ f.bits * f.ulp q ≤ |q| := by
  obtain ⟨m, e, hm, he, -, rfl⟩ := hx
  by_cases hexp : max (Int.log 2 |q| - f.bits) f.emin ≤ e
  · left
    obtain ⟨n, hn⟩ := Int.le.dest hexp
    refine ⟨m * 2 ^ n, ?_⟩
    rw [ulp, ← hn, zpow_add₀ (by norm_num), zpow_natCast]
    push_cast
    ring
  · right
    refine ⟨?_, ulp_le_abs hq (by omega)⟩
    have he' : (2 : ℚ) ^ (e + 1) ≤ f.ulp q := zpow_le_zpow_right₀ (by norm_num) (by omega)
    calc |(m : ℚ) * 2 ^ e| < 2 ^ (f.bits + 1) * 2 ^ e := abs_mul_zpow_lt hm e
      _ = 2 ^ f.bits * 2 ^ (e + 1) := by
          rw [two_pow_succ_mul, zpow_add_one₀ (by norm_num), mul_comm (2 : ℚ) (2 ^ e)]
      _ ≤ 2 ^ f.bits * f.ulp q := mul_le_mul_of_nonneg_left he' (by positivity)

/-- Numbers of different distances have a power of two between them. -/
theorem two_mul_ulp_le {p q : ℚ} (hp : 0 < p) (h : p ≤ q) (hne : f.ulp p ≠ f.ulp q) :
    2 * f.ulp p ≤ f.ulp q ∧ 2 ^ f.bits * f.ulp q ≤ q := by
  have hq : 0 < q := hp.trans_le h
  have hlog : Int.log 2 |p| ≤ Int.log 2 |q| := by
    rw [abs_of_pos hp, abs_of_pos hq]
    exact Int.log_mono_right hp h
  have hexp : max (Int.log 2 |p| - f.bits) f.emin < max (Int.log 2 |q| - f.bits) f.emin := by
    refine lt_of_le_of_ne (by omega) fun heq => hne ?_
    rw [ulp, ulp, heq]
  constructor
  · rw [ulp, ulp, ← zpow_one_add₀ two_ne_zero]
    exact zpow_le_zpow_right₀ one_le_two (by omega)
  · have hlarge := ulp_le_abs (f := f) hq.ne' (by omega)
    rwa [abs_of_pos hq] at hlarge

/-! ## Rounding -/

@[simp] theorem rounded_zero : f.rounded 0 = 0 := by
  have h : roundEven 0 = 0 :=
    le_antisymm (roundEven_le (by norm_num)) (le_roundEven (by norm_num))
  rw [rounded, zero_div, h, Int.cast_zero, zero_mul]

theorem rounded_neg (q : ℚ) : f.rounded (-q) = -f.rounded q := by
  rw [rounded, ulp_neg, neg_div, roundEven_neg, rounded]
  push_cast
  ring

theorem int_mul_ulp_le {q : ℚ} {k : ℤ} (h : k * f.ulp q ≤ q) : k * f.ulp q ≤ f.rounded q := by
  have hk : k ≤ roundEven (q / f.ulp q) := le_roundEven ((le_div_iff₀ (ulp_pos q)).mpr h)
  exact mul_le_mul_of_nonneg_right (by exact_mod_cast hk) (ulp_pos q).le

theorem le_int_mul_ulp {q : ℚ} {k : ℤ} (h : q ≤ k * f.ulp q) : f.rounded q ≤ k * f.ulp q := by
  have hk : roundEven (q / f.ulp q) ≤ k := roundEven_le ((div_le_iff₀ (ulp_pos q)).mpr h)
  exact mul_le_mul_of_nonneg_right (by exact_mod_cast hk) (ulp_pos q).le

theorem le_rounded {x q : ℚ} (hx : f.IsValue x) (h : x ≤ q) : x ≤ f.rounded q := by
  by_cases hq : q = 0
  · rwa [hq, rounded_zero, ← hq]
  · rcases multiple_or_small hx hq with ⟨k, rfl⟩ | ⟨hsmall, hlarge⟩
    · exact int_mul_ulp_le h
    · -- `q` is positive, as `x` is closer to zero than `q`
      have hpos : |q| = q := by
        apply abs_of_nonneg
        by_contra hneg
        have : |q| = -q := abs_of_neg (not_le.mp hneg)
        linarith [neg_abs_le x]
      have hbound : ((2 ^ f.bits : ℤ) : ℚ) * f.ulp q ≤ f.rounded q :=
        int_mul_ulp_le (by push_cast; linarith)
      push_cast at hbound
      linarith [le_abs_self x]

theorem rounded_le {x q : ℚ} (hx : f.IsValue x) (h : q ≤ x) : f.rounded q ≤ x := by
  have hneg := le_rounded (isValue_neg hx) (neg_le_neg h)
  rw [rounded_neg] at hneg
  exact neg_le_neg_iff.mp hneg

theorem rounded_eq {x : ℚ} (hx : f.IsValue x) : f.rounded x = x :=
  le_antisymm (rounded_le hx le_rfl) (le_rounded hx le_rfl)

theorem rounded_mono_of_pos {p q : ℚ} (hp : 0 < p) (h : p ≤ q) : f.rounded p ≤ f.rounded q := by
  by_cases hulp : f.ulp p = f.ulp q
  · rw [rounded, rounded, hulp]
    refine mul_le_mul_of_nonneg_right ?_ (ulp_pos q).le
    exact_mod_cast roundEven_mono (div_le_div_of_nonneg_right h (ulp_pos q).le)
  · obtain ⟨htwice, hlarge⟩ := two_mul_ulp_le hp h hulp
    have hsmall := abs_lt_ulp (f := f) p
    rw [abs_of_pos hp] at hsmall
    calc f.rounded p ≤ ((2 ^ (f.bits + 1) : ℤ) : ℚ) * f.ulp p :=
          le_int_mul_ulp (by push_cast; exact hsmall.le)
      _ = 2 ^ f.bits * (2 * f.ulp p) := by push_cast; exact two_pow_succ_mul _
      _ ≤ 2 ^ f.bits * f.ulp q := mul_le_mul_of_nonneg_left htwice (by positivity)
      _ = ((2 ^ f.bits : ℤ) : ℚ) * f.ulp q := by push_cast; rfl
      _ ≤ f.rounded q := int_mul_ulp_le (by push_cast; exact hlarge)

theorem rounded_mono {p q : ℚ} (h : p ≤ q) : f.rounded p ≤ f.rounded q := by
  by_cases hp : 0 < p
  · exact rounded_mono_of_pos hp h
  · by_cases hq : q < 0
    · have hneg := rounded_mono_of_pos (f := f) (neg_pos.mpr hq) (neg_le_neg h)
      rw [rounded_neg, rounded_neg] at hneg
      exact neg_le_neg_iff.mp hneg
    · exact (rounded_le isValue_zero (not_lt.mp hp)).trans
        (le_rounded isValue_zero (not_lt.mp hq))

/-! ## Overflow -/

theorem natAbs_roundEven_le (q : ℚ) : (roundEven (q / f.ulp q)).natAbs ≤ 2 ^ (f.bits + 1) := by
  have hq := abs_lt.mp (abs_lt_ulp (f := f) q)
  have hlow : -((2 ^ (f.bits + 1) : ℕ) : ℤ) ≤ roundEven (q / f.ulp q) := by
    apply le_roundEven
    rw [le_div_iff₀ (ulp_pos q)]
    push_cast
    linarith
  have hhigh : roundEven (q / f.ulp q) ≤ ((2 ^ (f.bits + 1) : ℕ) : ℤ) := by
    apply roundEven_le
    rw [div_le_iff₀ (ulp_pos q)]
    push_cast
    linarith
  generalize 2 ^ (f.bits + 1) = bound at hlow hhigh ⊢
  omega

theorem le_abs_rounded {q : ℚ} (h : 2 ^ f.bits * f.ulp q ≤ |q|) :
    2 ^ f.bits * f.ulp q ≤ |f.rounded q| := by
  rcases le_total 0 q with hq | hq
  · rw [abs_of_nonneg hq] at h
    have hbound : ((2 ^ f.bits : ℤ) : ℚ) * f.ulp q ≤ f.rounded q :=
      int_mul_ulp_le (by exact_mod_cast h)
    push_cast at hbound
    exact hbound.trans (le_abs_self _)
  · rw [abs_of_nonpos hq] at h
    have hbound : f.rounded q ≤ ((-2 ^ f.bits : ℤ) : ℚ) * f.ulp q :=
      le_int_mul_ulp (by push_cast; linarith)
    push_cast at hbound
    linarith [neg_abs_le (f.rounded q)]

theorem isValue_of_mul {m e : ℤ} (hm : m.natAbs ≤ 2 ^ (f.bits + 1)) (he : f.emin ≤ e)
    (he' : e < f.emax) : f.IsValue (m * (2 : ℚ) ^ e) := by
  rcases hm.lt_or_eq with hm | hm
  · exact ⟨m, e, hm, he, he'.le, rfl⟩
  · -- the significand has grown by a bit, and its last one is zero
    rw [pow_succ] at hm
    have hm2 : m = 2 * (m / 2) := by omega
    refine ⟨m / 2, e + 1, ?_, by omega, by omega, ?_⟩
    · have hpos : 0 < 2 ^ f.bits := Nat.two_pow_pos _
      rw [pow_succ]
      omega
    · rw [zpow_add_one₀ (by norm_num)]
      nth_rewrite 1 [hm2]
      push_cast
      ring

/-- Short of an overflow, rounding gives a value. -/
theorem isValue_rounded {q : ℚ} (h : |f.rounded q| < (2 : ℚ) ^ (f.bits + 1 + f.emax)) :
    f.IsValue (f.rounded q) := by
  have hemin := f.emin_lt
  by_cases hexp : max (Int.log 2 |q| - f.bits) f.emin < f.emax
  · exact isValue_of_mul (natAbs_roundEven_le q) (by omega) hexp
  · by_cases hq : q = 0
    · rw [hq, rounded_zero]
      exact isValue_zero
    have hlarge := (le_abs_rounded (ulp_le_abs hq (by omega))).trans_lt h
    have hexact : max (Int.log 2 |q| - f.bits) f.emin = f.emax := by
      rw [ulp, two_pow_mul_zpow, zpow_lt_zpow_iff_right₀ (by norm_num)] at hlarge
      omega
    have hulp : f.ulp q = 2 ^ f.emax := by rw [ulp, hexact]
    refine ⟨roundEven (q / f.ulp q), f.emax, ?_, hemin.le, le_rfl, by rw [rounded, hulp]⟩
    have hsplit : (2 : ℚ) ^ (f.bits + 1 + f.emax) = 2 ^ (f.bits + 1) * 2 ^ f.emax := by
      rw [two_pow_mul_zpow]
      push_cast
      rfl
    have hm : |((roundEven (q / f.ulp q) : ℤ) : ℚ)| < 2 ^ (f.bits + 1) := by
      rw [rounded, abs_mul, abs_of_pos (ulp_pos q), hsplit] at h
      nth_rewrite 2 [hulp] at h
      exact lt_of_mul_lt_mul_right h (zpow_pos (by norm_num) _).le
    rw [← Int.cast_abs, Int.abs_eq_natAbs] at hm
    exact_mod_cast hm

/-- A float of the format. -/
inductive Float (f : BinaryFormat) where
  | nan
  | infinity (negative : Bool)
  | finite (val : ℚ) (isValue : f.IsValue val)

variable (f) in
/-- The nearest float, infinite past the last value. -/
def round (q : ℚ) : f.Float :=
  if h : |f.rounded q| < (2 : ℚ) ^ (f.bits + 1 + f.emax) then
    .finite (f.rounded q) (isValue_rounded h)
  else .infinity (decide (q < 0))

theorem abs_lt_overflow {x : ℚ} (hx : f.IsValue x) : |x| < (2 : ℚ) ^ (f.bits + 1 + f.emax) := by
  obtain ⟨m, e, hm, -, he, rfl⟩ := hx
  calc |(m : ℚ) * 2 ^ e| < 2 ^ (f.bits + 1) * 2 ^ e := abs_mul_zpow_lt hm e
    _ = 2 ^ (((f.bits + 1 : ℕ) : ℤ) + e) := two_pow_mul_zpow _ e
    _ ≤ 2 ^ (f.bits + 1 + f.emax) := zpow_le_zpow_right₀ (by norm_num) (by push_cast; omega)

/-- A value is its own rounding. -/
theorem round_of_isValue {x : ℚ} (hx : f.IsValue x) : f.round x = .finite x hx := by
  have hr : f.rounded x = x := rounded_eq hx
  have hlt : |f.rounded x| < (2 : ℚ) ^ (f.bits + 1 + f.emax) := hr.symm ▸ abs_lt_overflow hx
  rw [round, dif_pos hlt]
  congr 1

/-- A format with more bits and exponents has every value of the other. -/
theorem IsValue.widen {g : BinaryFormat} {x : ℚ} (hx : f.IsValue x) (hbits : f.bits ≤ g.bits)
    (hemin : g.emin ≤ f.emin) (hemax : f.emax ≤ g.emax) : g.IsValue x := by
  obtain ⟨m, e, hm, he, he', rfl⟩ := hx
  exact ⟨m, e, hm.trans_le (Nat.pow_le_pow_right Nat.two_pos (by omega)), hemin.trans he,
    he'.trans hemax, rfl⟩

end BinaryFormat
