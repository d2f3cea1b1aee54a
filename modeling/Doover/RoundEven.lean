import Mathlib.Algebra.Order.Floor.Ring
import Mathlib.Data.Rat.Floor
import Mathlib.Tactic.Linarith
import Mathlib.Tactic.Ring

/-! # Rounding to an integer

`roundEven` gives the nearest integer, a tie going to the even one.  `NearestEven` says that an
integer is that one, and singles it out (`NearestEven.unique`).
-/

namespace Binary64

/-- The nearest integer, a tie going to the even one. -/
def roundEven (x : ℚ) : ℤ :=
  if x - ⌊x⌋ < 1 / 2 then ⌊x⌋
  else if x - ⌊x⌋ = 1 / 2 ∧ ⌊x⌋ % 2 = 0 then ⌊x⌋
  else ⌊x⌋ + 1

theorem le_roundEven {x : ℚ} {k : ℤ} (h : (k : ℚ) ≤ x) : k ≤ roundEven x := by
  have hk : k ≤ ⌊x⌋ := Int.le_floor.mpr h
  unfold roundEven
  split
  · exact hk
  · split
    · exact hk
    · omega

theorem roundEven_le {x : ℚ} {k : ℤ} (h : x ≤ k) : roundEven x ≤ k := by
  have hk : ⌊x⌋ ≤ k := by
    have hf : ((⌊x⌋ : ℤ) : ℚ) ≤ k := (Int.floor_le x).trans h
    exact_mod_cast hf
  unfold roundEven
  split
  · exact hk
  · rename_i hhalf
    split
    · exact hk
    · -- at least half above its floor, `x` is above it
      have hlt : ((⌊x⌋ : ℤ) : ℚ) < k := by linarith
      have : ⌊x⌋ < k := by exact_mod_cast hlt
      omega

/-- `k` is the nearest integer, a tie going to the even one. -/
def NearestEven (x : ℚ) (k : ℤ) : Prop := |x - k| < 1 / 2 ∨ |x - k| = 1 / 2 ∧ k % 2 = 0

theorem nearestEven_roundEven (x : ℚ) : NearestEven x (roundEven x) := by
  have hlow := Int.floor_le x
  have hhigh := Int.lt_floor_add_one x
  have hbelow : |x - (⌊x⌋ : ℚ)| = x - ⌊x⌋ := abs_of_nonneg (by linarith)
  have habove : |x - ((⌊x⌋ + 1 : ℤ) : ℚ)| = 1 - (x - ⌊x⌋) := by
    push_cast
    rw [abs_of_nonpos (by linarith)]
    ring
  unfold NearestEven roundEven
  split
  · rename_i hlt
    exact .inl (hbelow.trans_lt hlt)
  · rename_i hhalf
    split
    · rename_i heven
      exact .inr ⟨hbelow.trans heven.1, heven.2⟩
    · rename_i hodd
      rw [habove]
      rcases (not_lt.mp hhalf).lt_or_eq with hlt | heq
      · exact .inl (by linarith)
      · refine .inr ⟨by linarith, ?_⟩
        have hmod : ⌊x⌋ % 2 ≠ 0 := fun h => hodd ⟨heq.symm, h⟩
        omega

theorem NearestEven.unique {x : ℚ} {k l : ℤ} (hk : NearestEven x k) (hl : NearestEven x l) :
    k = l := by
  have hk' : |x - k| ≤ 1 / 2 := hk.elim le_of_lt fun h => h.1.le
  have hl' : |x - l| ≤ 1 / 2 := hl.elim le_of_lt fun h => h.1.le
  rw [abs_le] at hk' hl'
  have hkl : (k : ℚ) ≤ (l + 1 : ℤ) := by push_cast; linarith
  have hlk : (l : ℚ) ≤ (k + 1 : ℤ) := by push_cast; linarith
  have hkl' : k ≤ l + 1 := by exact_mod_cast hkl
  have hlk' : l ≤ k + 1 := by exact_mod_cast hlk
  by_contra hne
  -- neighbours, and `x` is in the middle of them
  have hmiddle : ∀ {m n : ℤ}, n = m + 1 → NearestEven x m → NearestEven x n →
      m % 2 = 0 ∧ n % 2 = 0 := by
    rintro m n rfl hm hn
    have hm' : |x - m| ≤ 1 / 2 := hm.elim le_of_lt fun h => h.1.le
    have hn' : |x - ((m + 1 : ℤ) : ℚ)| ≤ 1 / 2 := hn.elim le_of_lt fun h => h.1.le
    push_cast at hn'
    rw [abs_le] at hm' hn'
    constructor
    · refine (hm.resolve_left fun hlt => ?_).2
      rw [abs_lt] at hlt
      linarith
    · refine (hn.resolve_left fun hlt => ?_).2
      push_cast at hlt
      rw [abs_lt] at hlt
      linarith
  rcases (by omega : l = k + 1 ∨ k = l + 1) with h | h
  · have := hmiddle h hk hl
    omega
  · have := hmiddle h hl hk
    omega

theorem roundEven_eq {x : ℚ} {k : ℤ} (h : NearestEven x k) : roundEven x = k :=
  (nearestEven_roundEven x).unique h

theorem roundEven_neg (x : ℚ) : roundEven (-x) = -roundEven x := by
  refine roundEven_eq ?_
  have habs : |-x - ((-roundEven x : ℤ) : ℚ)| = |x - roundEven x| := by
    rw [← abs_neg]
    push_cast
    ring_nf
  rw [NearestEven, habs]
  rcases nearestEven_roundEven x with h | ⟨h, heven⟩
  · exact .inl h
  · exact .inr ⟨h, by omega⟩

theorem roundEven_mono {x y : ℚ} (h : x ≤ y) : roundEven x ≤ roundEven y := by
  by_contra hlt
  have hx : |x - roundEven x| ≤ 1 / 2 :=
    (nearestEven_roundEven x).elim le_of_lt fun h => h.1.le
  have hy : |y - roundEven y| ≤ 1 / 2 :=
    (nearestEven_roundEven y).elim le_of_lt fun h => h.1.le
  rw [abs_le] at hx hy
  have hstep : ((roundEven y + 1 : ℤ) : ℚ) ≤ roundEven x := by
    exact_mod_cast (by omega : roundEven y + 1 ≤ roundEven x)
  push_cast at hstep
  have heq : x = y := by linarith
  exact hlt (heq ▸ le_rfl)

end Binary64
