import Doover.Binary64
import Doover.JsonValue

/-! # Doubles of JSON numbers

`as_f64` of an integer is its nearest double, a tie going to the even one, so it is the
rounding of binary64 arithmetic (`asF64_eq_rounded`) and keeps the order of numbers.  `as i64` of
a double drops its fraction and saturates (`f64AsI64`).
-/

namespace Doover
open Binary64

theorem roundToF64_neg (x : ℤ) : roundToF64 (-x) = -roundToF64 x := by
  unfold roundToF64
  rw [Int.natAbs_neg, Int.sign_neg, neg_mul]

theorem roundToF64_of_natAbs_lt {x : ℤ} (h : x.natAbs < 2 ^ 53) : roundToF64 x = x := by
  have hshift : x.natAbs.log2 - 52 = 0 := by
    have hlog : x.natAbs.log2 < 53 := by
      by_cases hx : x.natAbs = 0
      · rw [hx]
        decide
      · exact (Nat.log2_lt hx).mpr h
    omega
  simp [roundToF64, hshift, Nat.mod_one, Int.sign_mul_abs]

/-- The nearest multiple of `d`, as the code finds it. -/
theorem nearestEven_div {a d : ℕ} (hd : 0 < d) :
    NearestEven (a / d)
      ((if d < 2 * (a % d) || (2 * (a % d) == d && a / d % 2 == 1) then a / d + 1 else a / d : ℕ) :
        ℤ) := by
  have hd' : (0 : ℚ) < d := by exact_mod_cast hd
  have hsplit : (a : ℚ) / d = (a / d : ℕ) + (a % d : ℕ) / d := by
    have ha : (a : ℚ) = (a / d : ℕ) * d + (a % d : ℕ) := by
      exact_mod_cast (Nat.div_add_mod' a d).symm
    nth_rewrite 1 [ha]
    rw [add_div, mul_div_cancel_right₀ _ hd'.ne']
  have hlt : ((a % d : ℕ) : ℚ) < d := by exact_mod_cast Nat.mod_lt a hd
  rw [hsplit, NearestEven]
  generalize a % d = r at *
  generalize a / d = q at *
  by_cases hup : d < 2 * r ∨ 2 * r = d ∧ q % 2 = 1
  · have habs : |(q : ℚ) + r / d - ((q + 1 : ℕ) : ℤ)| = 1 - r / d := by
      push_cast
      rw [abs_of_nonpos (by linarith [(div_lt_one hd').mpr hlt])]
      ring
    rw [if_pos (by simpa using hup), habs]
    rcases hup with hup | ⟨heq, hodd⟩
    · have hhalf : 1 / 2 < (r : ℚ) / d := by
        rw [lt_div_iff₀ hd']
        have hup' : (d : ℚ) < 2 * r := by exact_mod_cast hup
        linarith
      exact .inl (by linarith)
    · have hhalf : (r : ℚ) / d = 1 / 2 := by
        rw [div_eq_iff hd'.ne']
        have heq' : (2 : ℚ) * r = d := by exact_mod_cast heq
        linarith
      exact .inr ⟨by linarith, by omega⟩
  · have habs : |(q : ℚ) + r / d - ((q : ℕ) : ℤ)| = r / d := by
      push_cast
      rw [abs_of_nonneg (by linarith [div_nonneg (Nat.cast_nonneg r) hd'.le])]
      ring
    rw [if_neg (by simpa using hup), habs]
    rw [not_or, not_lt] at hup
    rcases hup.1.lt_or_eq with hdown | heq
    · left
      rw [div_lt_iff₀ hd']
      have hdown' : (2 : ℚ) * r < d := by exact_mod_cast hdown
      linarith
    · right
      refine ⟨?_, by omega⟩
      rw [div_eq_iff hd'.ne']
      have heq' : (2 : ℚ) * r = d := by exact_mod_cast heq
      linarith

/-- `as f64` rounds to the nearest double. -/
theorem roundToF64_natCast (a : ℕ) : ((roundToF64 a : ℤ) : ℚ) = rounded a := by
  by_cases hsmall : a < 2 ^ 53
  · have hdouble : IsBinary64 a := ⟨a, 0, hsmall, by norm_num, by norm_num, by simp⟩
    rw [roundToF64_of_natAbs_lt (x := a) hsmall, rounded_eq hdouble]
    rfl
  · have ha : a ≠ 0 := by omega
    have hlog : 53 ≤ a.log2 := (Nat.le_log2 ha).mpr (not_lt.mp hsmall)
    have hulp : ulp a = ((2 ^ (a.log2 - 52) : ℕ) : ℚ) := by
      have hlog' : Int.log 2 |(a : ℚ)| = a.log2 := by
        rw [Nat.abs_cast, Int.log_natCast, Nat.log2_eq_log_two]
      rw [ulp, hlog', max_eq_left (by omega), Nat.cast_pow, ← zpow_natCast]
      congr 1
      omega
    have hsign : (a : ℤ).sign = 1 := Int.sign_eq_one_of_pos (by omega)
    rw [rounded, hulp, roundEven_eq (nearestEven_div (Nat.two_pow_pos _))]
    simp only [roundToF64, hsign, one_mul, Int.natAbs_natCast]
    norm_cast

theorem roundToF64_eq_rounded (x : ℤ) : ((roundToF64 x : ℤ) : ℚ) = rounded x := by
  obtain ⟨a, rfl | rfl⟩ := x.eq_nat_or_neg
  · exact roundToF64_natCast a
  · rw [roundToF64_neg, Int.cast_neg, Int.cast_neg, rounded_neg, roundToF64_natCast]
    rfl

theorem roundToF64_mono {x y : ℤ} (h : x ≤ y) : roundToF64 x ≤ roundToF64 y := by
  have hmono : ((roundToF64 x : ℤ) : ℚ) ≤ (roundToF64 y : ℤ) := by
    rw [roundToF64_eq_rounded, roundToF64_eq_rounded]
    exact rounded_mono (by exact_mod_cast h)
  exact_mod_cast hmono

/-- A power of two is a double. -/
theorem roundToF64_two_pow {n : ℕ} (h : n ≤ 971) : roundToF64 (2 ^ n) = 2 ^ n := by
  have hdouble : IsBinary64 ((2 : ℚ) ^ n) := ⟨1, n, by norm_num, by omega, by omega, by simp⟩
  have hround : ((roundToF64 (2 ^ n) : ℤ) : ℚ) = ((2 ^ n : ℤ) : ℚ) := by
    rw [roundToF64_eq_rounded]
    push_cast
    exact rounded_eq hdouble
  exact_mod_cast hround

theorem roundToF64_of_le {k : ℕ} (h : k ≤ 2 ^ 53) : roundToF64 k = k := by
  rcases h.lt_or_eq with h | rfl
  · exact roundToF64_of_natAbs_lt h
  · exact_mod_cast roundToF64_two_pow (n := 53) (by norm_num)

/-- **A number reads as the nearest double.** -/
theorem asF64_eq_rounded (n : Number) : n.asF64 = rounded n.value := by
  cases n with
  | int n range => exact roundToF64_eq_rounded n
  | float x => exact (rounded_eq x.isDouble).symm

theorem asF64_mono {m n : Number} (h : m.value ≤ n.value) : m.asF64 ≤ n.asF64 := by
  rw [asF64_eq_rounded, asF64_eq_rounded]
  exact rounded_mono h

/-! ## As doubles -/

/-- `as_f64`. -/
def Number.toF64 : Number → F64
  | .int n range => ⟨roundToF64 n, roundToF64_isDouble (natAbs_lt_of_range range)⟩
  | .float x => x

/-- The same double among all of them. -/
def Number.toBinary64 (n : Number) : Binary64 := .finite n.toF64.val n.toF64.isDouble

theorem Number.toF64_val (n : Number) : n.toF64.val = n.asF64 := by
  cases n <;> rfl

theorem F64.ext {x y : F64} (h : x.val = y.val) : x = y := by
  obtain ⟨v, hv⟩ := x
  obtain ⟨w, hw⟩ := y
  obtain rfl : v = w := h
  rfl

/-! ## As integers -/

/-- `f64 as i64`: towards zero, and saturating. -/
def f64AsI64 (x : ℚ) : ℤ := max (-2 ^ 63) (min (2 ^ 63 - 1) (x.num.tdiv x.den))

theorem f64AsI64_range (x : ℚ) : -2 ^ 63 ≤ f64AsI64 x ∧ f64AsI64 x < 2 ^ 63 := by
  unfold f64AsI64
  omega

theorem num_tdiv_den (x : ℚ) : x.num.tdiv x.den = if 0 ≤ x then ⌊x⌋ else ⌈x⌉ := by
  split
  · rename_i h
    rw [Int.tdiv_eq_ediv_of_nonneg (Rat.num_nonneg.mpr h), Rat.floor_def']
  · rename_i h
    have hneg : 0 ≤ (-x).num := Rat.num_nonneg.mpr (by linarith)
    have hceil : ⌈x⌉ = -⌊-x⌋ := by rw [Int.floor_neg, neg_neg]
    rw [hceil, Rat.floor_def', ← Int.tdiv_eq_ediv_of_nonneg hneg, Rat.neg_num, Rat.neg_den,
      Int.neg_tdiv, neg_neg]

theorem f64AsI64_mono {x y : ℚ} (h : x ≤ y) : f64AsI64 x ≤ f64AsI64 y := by
  have hmono : x.num.tdiv x.den ≤ y.num.tdiv y.den := by
    rw [num_tdiv_den, num_tdiv_den]
    split
    · rename_i hx
      rw [if_pos (hx.trans h)]
      exact Int.floor_mono h
    · rename_i hx
      split
      · rename_i hy
        exact (Int.ceil_le.mpr (by exact_mod_cast (not_le.mp hx).le)).trans (Int.floor_nonneg.mpr hy)
      · exact Int.ceil_mono h
  unfold f64AsI64
  omega

theorem f64AsI64_intCast (k : ℤ) : f64AsI64 k = max (-2 ^ 63) (min (2 ^ 63 - 1) k) := by
  rw [f64AsI64, Rat.num_intCast, Rat.den_intCast, Nat.cast_one, Int.tdiv_one]

end Doover
