import Doover.JsonEquality
import Doover.LogTriggers

/-! # Evaluating the same value again

A trigger that has seen a value says nothing to the same value, with one exception.  The two
edges of a threshold's band are inclusive, so a band that rounding or a zero deadband
leaves empty has both edges on the threshold, and a value on it is over the one and under
the other: every evaluation moves it to the other side.
-/

namespace Doover
namespace LogTrigger

/-! ## Crossings -/

section Crossing
variable {F : Type} [FloatArith F] (direction : CrossDirection) (halfBand new : F)

@[simp] theorem crossSides_nil (thresholds : List F) :
    crossSides direction halfBand new [] thresholds = ([], false) := by
  cases thresholds <;> rfl

@[simp] theorem crossSides_no_thresholds (sides : List Bool) :
    crossSides direction halfBand new sides [] = (sides, false) := by
  cases sides <;> rfl

/-- A value above a threshold's band and below it at once. -/
def Straddles (t : F) : Prop := new ≥ t + halfBand ∧ new ≤ t - halfBand

/-- The loop on its own sides changes none and fires nothing, exactly when no threshold it
reaches is straddled. -/
theorem crossSides_again_iff (sides : List Bool) (thresholds : List F) :
    crossSides direction halfBand new (crossSides direction halfBand new sides thresholds).1
        thresholds = ((crossSides direction halfBand new sides thresholds).1, false) ↔
      ∀ t ∈ thresholds.take sides.length, ¬ Straddles halfBand new t := by
  induction sides generalizing thresholds with
  | nil => simp
  | cons side sides ih =>
    cases thresholds with
    | nil => simp
    | cons t thresholds =>
      have ih := ih thresholds
      have ht : Straddles halfBand new t ↔ new ≥ t + halfBand ∧ new ≤ t - halfBand := Iff.rfl
      rw [Prod.ext_iff] at ih
      rw [List.length_cons, List.take_succ_cons, List.forall_mem_cons, ← ih, ht]
      by_cases hup : new ≥ t + halfBand
      · by_cases hdown : new ≤ t - halfBand
        · cases side <;> simp [crossSides, hup, hdown]
        · cases side <;> simp [crossSides, hup, hdown, Prod.ext_iff]
      · by_cases hdown : new ≤ t - halfBand
        · cases side <;> simp [crossSides, hup, hdown, Prod.ext_iff]
        · cases side <;> simp [crossSides, hup, hdown, Prod.ext_iff]

theorem evaluateCrossing_of_some {v : Json} {x : F} (hx : asFloat F v = some x)
    (thresholds : List F) (deadband : F) (state : TriggerState F) :
    evaluateCrossing thresholds deadband direction v state =
      let r := crossSides direction (deadband / (2 : ℚ)) x (sidesOf thresholds state) thresholds
      ({ state with sides := some r.1 }, r.2) := by
  rw [evaluateCrossing, hx]

theorem evaluateCrossing_again_iff (thresholds : List F) (deadband : F) (v : Json)
    (state : TriggerState F) :
    let after := (evaluateCrossing thresholds deadband direction v state).1
    evaluateCrossing thresholds deadband direction v after = (after, false) ↔
      ∀ x, asFloat F v = some x → ∀ t ∈ thresholds.take (sidesOf thresholds state).length,
        ¬ Straddles (deadband / (2 : ℚ)) x t := by
  cases hx : asFloat F v with
  | none => simp [evaluateCrossing, hx]
  | some x =>
    intro after
    rw [evaluateCrossing_of_some direction hx]
    have hafter : after = { state with
        sides := some (crossSides direction (deadband / (2 : ℚ)) x
          (sidesOf thresholds state) thresholds).1 } :=
      congrArg Prod.fst (evaluateCrossing_of_some direction hx thresholds deadband state)
    have hsides : sidesOf thresholds after = (crossSides direction (deadband / (2 : ℚ)) x
        (sidesOf thresholds state) thresholds).1 := by rw [hafter]; rfl
    have hiff := crossSides_again_iff direction (deadband / (2 : ℚ)) x
      (sidesOf thresholds state) thresholds
    rw [Prod.ext_iff] at hiff
    simp only [hsides, Option.some.injEq, forall_eq', ← hiff]
    simp [hafter]

end Crossing

/-! ## Changes -/

section Delta
variable {F : Type} [FloatArith F]

/-- A value that does not fire against itself does not fire twice. -/
theorem evaluateDelta_again {v : Json} {fires : F → F → Bool} (state : TriggerState F)
    (h : ∀ x, asFloat F v = some x → fires (FloatArith.abs (x - x)) x = false) :
    let after := (evaluateDelta v state fires).1
    evaluateDelta v after fires = (after, false) := by
  intro after
  cases hx : asFloat F v with
  | none => simp [after, evaluateDelta, hx]
  | some x =>
    have hself := h x hx
    cases hlast : state.lastLogged with
    | none => simp [after, evaluateDelta, hx, hlast, hself]
    | some last =>
      by_cases hfires : fires (FloatArith.abs (x - last)) last = true
      · simp [after, evaluateDelta, hx, hlast, hself, hfires]
      · simp [after, evaluateDelta, hx, hlast, hfires]

end Delta

theorem jsonEq_refl (v : Json) : jsonEq v v = true := by
  cases v with
  | number x => simp [jsonEq]
  | _ => exact Json.beq_refl _

/-! ## Doubles -/

theorem isBinary64_asF64 (n : Number) : IsBinary64 n.asF64 := by
  cases n with
  | int n range => exact roundToF64_isDouble (natAbs_lt_of_range range)
  | float x => exact x.isDouble

/-- Numbers of JSON values are finite. -/
theorem asFloat_finite {v : Json} {x : Binary64} (h : asFloat Binary64 v = some x) :
    ∃ q hq, x = .finite q hq := by
  rw [asFloat, Option.map_eq_some_iff] at h
  obtain ⟨q, hv, rfl⟩ := h
  have hq : IsBinary64 q := by
    cases v with
    | number n => exact Option.some.inj hv ▸ isBinary64_asF64 n
    | _ => cases hv
  exact ⟨q, hq, Binary64.round_of_isBinary64 hq⟩

section Binary64
open Binary64

/-- The deadband is not negative. -/
def ValidDeadband (deadband : Binary64) : Prop := ((0 : ℚ) : Binary64) ≤ deadband

/-- Amounts and percentages are positive. -/
def Positive (x : Binary64) : Prop := ((0 : ℚ) : Binary64) ≤ x ∧ ¬ x ≤ ((0 : ℚ) : Binary64)

/-- What a trigger's parameters must be. -/
def Valid : LogTrigger Binary64 → Prop
  | cross _ deadband | rise _ deadband | fall _ deadband => ValidDeadband deadband
  | deltaAmount amount => Positive amount
  | deltaPercent percent => Positive percent
  | anyChange | enter _ | exit _ => True

/-- Half the deadband is lost in rounding on either side of the threshold. -/
def EmptyBand (t deadband : Binary64) : Prop :=
  t + deadband / (2 : ℚ) = t ∧ t - deadband / (2 : ℚ) = t

/-- The thresholds and the deadband of a crossing trigger. -/
def crossing : LogTrigger Binary64 → Option (List Binary64 × Binary64)
  | cross thresholds deadband | rise thresholds deadband | fall thresholds deadband =>
    some (thresholds, deadband)
  | _ => none

/-- The value is a threshold of the trigger, one with a side and with an empty band. -/
def OnEmptyBand (trigger : LogTrigger Binary64) (v : Json) (state : TriggerState Binary64) :
    Prop :=
  ∃ thresholds deadband t, trigger.crossing = some (thresholds, deadband) ∧
    asFloat Binary64 v = some t ∧ t ∈ thresholds.take (sidesOf thresholds state).length ∧
    EmptyBand t deadband

/-- An infinite threshold is not straddled. -/
theorem not_straddles_infinity {x : ℚ} (hx : IsBinary64 x) (negative : Bool) (h : Binary64) :
    ¬ Straddles h (finite x hx) (infinity negative) := by
  rintro ⟨hup, hdown⟩
  cases negative with
  | true =>
    have hsub : infinity true - h = infinity true ∨ infinity true - h = nan := by
      cases h with
      | nan => exact .inr rfl
      | infinity negative => cases negative <;> simp [Sub.sub, HSub.hSub, sub, neg, add]
      | finite q hq => exact .inl rfl
    rcases hsub with hsub | hsub <;> simp [hsub] at hdown
  | false =>
    have hadd : infinity false + h = infinity false ∨ infinity false + h = nan := by
      cases h with
      | nan => exact .inr rfl
      | infinity negative => cases negative <;> simp [Add.add, HAdd.hAdd, add]
      | finite q hq => exact .inl rfl
    rcases hadd with hadd | hadd <;> simp [hadd] at hup

theorem straddles_iff {deadband t : Binary64} (hd : ValidDeadband deadband) {x : ℚ}
    (hx : IsBinary64 x) : Straddles (deadband / (2 : ℚ)) (finite x hx) t ↔
      t = finite x hx ∧ EmptyBand (finite x hx) deadband := by
  have hhalf := half_nonneg hd
  constructor
  · rintro ⟨hup, hdown⟩
    cases t with
    | nan => exact absurd hup (not_nan_le _)
    | infinity negative => exact absurd ⟨hup, hdown⟩ (not_straddles_infinity hx negative _)
    | finite y hy =>
      have hadd := finite_le_add hy hhalf
      have hsub := sub_le_finite hy hhalf
      have heq : finite y hy = finite x hx :=
        le_antisymm (le_trans hadd hup) (le_trans hdown hsub)
      rw [heq] at hup hdown hadd hsub
      exact ⟨heq, le_antisymm hup hadd, le_antisymm hsub hdown⟩
  · rintro ⟨rfl, hadd, hsub⟩
    have hself : finite x hx ≤ finite x hx := (finite_le_finite hx hx).mpr le_rfl
    exact ⟨hadd.symm ▸ hself, hsub.symm ▸ hself⟩

theorem evaluateCrossing_again_iff_not_empty {thresholds : List Binary64} {deadband : Binary64}
    (hd : ValidDeadband deadband) (direction : CrossDirection) (v : Json)
    (state : TriggerState Binary64) :
    let after := (evaluateCrossing thresholds deadband direction v state).1
    evaluateCrossing thresholds deadband direction v after = (after, false) ↔
      ¬ ∃ t, asFloat Binary64 v = some t ∧
        t ∈ thresholds.take (sidesOf thresholds state).length ∧ EmptyBand t deadband := by
  intro after
  refine (evaluateCrossing_again_iff direction thresholds deadband v state).trans ?_
  constructor
  · rintro h ⟨t, hv, hmem, hempty⟩
    obtain ⟨x, hx, rfl⟩ := asFloat_finite hv
    exact h _ hv _ hmem ((straddles_iff hd hx).mpr ⟨rfl, hempty⟩)
  · intro h x hv t hmem hstr
    obtain ⟨q, hq, rfl⟩ := asFloat_finite hv
    obtain ⟨rfl, hempty⟩ := (straddles_iff hd hq).mp hstr
    exact h ⟨_, hv, hmem, hempty⟩

theorem firesAmount_self {amount : Binary64} (h : Positive amount) {v : Json} {x : Binary64}
    (hx : asFloat Binary64 v = some x) :
    firesAmount amount (FloatArith.abs (x - x)) x = false := by
  obtain ⟨q, hq, rfl⟩ := asFloat_finite hx
  have habs : FloatArith.abs (finite q hq - finite q hq) = ((0 : ℚ) : Binary64) := by
    rw [finite_sub_self, ratCast_zero]
    exact abs_finite_zero
  rw [firesAmount, habs, decide_eq_false_iff_not]
  exact h.2

theorem firesPercent_self {percent : Binary64} (h : Positive percent) {v : Json}
    {x : Binary64} (hx : asFloat Binary64 v = some x) :
    firesPercent percent (FloatArith.abs (x - x)) x = false := by
  obtain ⟨q, hq, rfl⟩ := asFloat_finite hx
  have habs : FloatArith.abs (finite q hq - finite q hq) = ((0 : ℚ) : Binary64) := by
    rw [finite_sub_self, ratCast_zero]
    exact abs_finite_zero
  rw [firesPercent, habs]
  split
  · -- against a zero baseline, zero is no change
    rw [ratCast_zero]
    rfl
  · rename_i hbase
    have hq0 : q ≠ 0 := by
      rintro rfl
      apply hbase
      rw [ratCast_zero]
      rfl
    have hdiv : ((0 : ℚ) : Binary64) / FloatArith.abs (finite q hq) * ((100 : ℚ) : Binary64) =
        ((0 : ℚ) : Binary64) := by
      rw [ratCast_zero, ratCast_of_isBinary64 isBinary64_hundred]
      rw [show FloatArith.abs (finite q hq) = finite |q| (isBinary64_abs hq) from rfl,
        zero_div_finite _ (abs_ne_zero.mpr hq0), zero_mul_finite]
    rw [hdiv, decide_eq_false_iff_not]
    exact h.2

/-- The second of two evaluations of one value fires nothing and changes nothing, exactly
when the value is on no threshold whose band is empty. -/
theorem evaluate_again_iff (trigger : LogTrigger Binary64) (valid : trigger.Valid)
    (prev : Option Json) (v : Json) (state : TriggerState Binary64) :
    let after := (trigger.evaluate prev v state).1
    trigger.evaluate (some v) v after = (after, false) ↔ ¬ trigger.OnEmptyBand v state := by
  cases trigger with
  | cross thresholds deadband =>
    exact (evaluateCrossing_again_iff_not_empty valid .both v state).trans
      (by simp [OnEmptyBand, crossing])
  | rise thresholds deadband =>
    exact (evaluateCrossing_again_iff_not_empty valid .rise v state).trans
      (by simp [OnEmptyBand, crossing])
  | fall thresholds deadband =>
    exact (evaluateCrossing_again_iff_not_empty valid .fall v state).trans
      (by simp [OnEmptyBand, crossing])
  | deltaAmount amount =>
    exact iff_of_true (evaluateDelta_again state fun x hx => firesAmount_self valid hx)
      (by simp [OnEmptyBand, crossing])
  | deltaPercent percent =>
    exact iff_of_true (evaluateDelta_again state fun x hx => firesPercent_self valid hx)
      (by simp [OnEmptyBand, crossing])
  | anyChange => simp [evaluate, OnEmptyBand, crossing, jsonEq_refl]
  | enter value => simp [evaluate, OnEmptyBand, crossing, jsonEq_refl]
  | exit value => simp [evaluate, OnEmptyBand, crossing, jsonEq_refl]

/-- `100` as a JSON integer. -/
def hundred : Json := .ofInt 100 (by omega)

/-- `LogTrigger::cross(100.0)`: the deadband is zero. -/
def crossHundred : LogTrigger Binary64 :=
  cross [finite 100 isBinary64_hundred] (finite 0 isBinary64_zero)

theorem asFloat_hundred : asFloat Binary64 hundred = some (finite 100 isBinary64_hundred) := by
  have hround : roundToF64 100 = 100 := by decide
  rw [asFloat, hundred, Json.ofInt, Json.asF64, Option.map_some, Number.asF64, hround]
  exact congrArg some (ratCast_of_isBinary64 isBinary64_hundred)

theorem emptyBand_zero {x : ℚ} (hx : IsBinary64 x) :
    EmptyBand (finite x hx) (finite 0 isBinary64_zero) := by
  have hhalf : finite 0 isBinary64_zero / ((2 : ℚ) : Binary64) = finite 0 isBinary64_zero := by
    rw [ratCast_two, zero_div_finite isBinary64_two (by norm_num)]
  have hadd : finite x hx + finite 0 isBinary64_zero = Binary64.round (x + 0) := rfl
  have hsub : finite x hx - finite 0 isBinary64_zero = Binary64.round (x + -0) := rfl
  rw [EmptyBand, hhalf, hadd, hsub, neg_zero, add_zero, round_of_isBinary64 hx]
  exact ⟨rfl, rfl⟩

theorem crossHundred_valid : crossHundred.Valid := by
  show ((0 : ℚ) : Binary64) ≤ finite 0 isBinary64_zero
  rw [ratCast_zero, finite_le_finite]

theorem evaluate_again_iff_crossHundred :
    let after := (crossHundred.evaluate none hundred {}).1
    crossHundred.evaluate (some hundred) hundred after = (after, false) ↔
      ¬ crossHundred.OnEmptyBand hundred {} :=
  evaluate_again_iff crossHundred crossHundred_valid none hundred {}

/-- On the threshold itself both evaluations fire. -/
theorem crossHundred_fires_twice :
    crossHundred.Valid ∧ (crossHundred.evaluate none hundred {}).2 = true ∧
      (crossHundred.evaluate (some hundred) hundred
        (crossHundred.evaluate none hundred {}).1).2 = true := by
  have hstr : Straddles (finite 0 isBinary64_zero / ((2 : ℚ) : Binary64))
      (finite 100 isBinary64_hundred) (finite 100 isBinary64_hundred) :=
    (straddles_iff crossHundred_valid isBinary64_hundred).mpr
      ⟨rfl, emptyBand_zero isBinary64_hundred⟩
  refine ⟨crossHundred_valid, ?_, ?_⟩
  · simp [crossHundred, evaluate, evaluateCrossing_of_some _ asFloat_hundred, sidesOf,
      crossSides, hstr.1]
  · simp [crossHundred, evaluate, evaluateCrossing_of_some _ asFloat_hundred, sidesOf,
      crossSides, hstr.1, hstr.2]

end Binary64
end LogTrigger
end Doover
