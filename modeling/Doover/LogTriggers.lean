import Doover.Binary64
import Doover.JsonValue

/-! # Log triggers

A trigger decides whether a tag write is logged at once.  Every trigger of a tag
runs on every single-tag set, so that its state follows the values even when
another trigger already fired.

The arithmetic is a parameter: `Binary64` is what the program computes with, `ℚ` the same
computation without rounding.
-/

namespace Doover

/-- The operations on floats the triggers use. -/
class FloatArith (F : Type) extends Add F, Sub F, Mul F, Div F, LE F, RatCast F where
  abs : F → F
  eq : F → F → Bool
  decidableLE : DecidableLE F

attribute [reducible, instance] FloatArith.decidableLE

instance : FloatArith Binary64 where
  abs := Binary64.abs
  eq := Binary64.eq
  decidableLE := inferInstance

instance : FloatArith ℚ where
  abs := fun x => |x|
  eq := fun x y => decide (x = y)
  decidableLE := inferInstance

/-- Which crossings fire. -/
inductive CrossDirection where
  | both
  | rise
  | fall
deriving DecidableEq

/-- One `log_on` rule. -/
inductive LogTrigger (F : Type) where
  | cross (thresholds : List F) (deadband : F)
  | rise (thresholds : List F) (deadband : F)
  | fall (thresholds : List F) (deadband : F)
  | deltaAmount (amount : F)
  | deltaPercent (percent : F)
  | anyChange
  | enter (value : Json)
  | exit (value : Json)

/-- What a trigger remembers: the side of each threshold the value is on, and the
value it last fired on. -/
structure TriggerState (F : Type) where
  sides : Option (List Bool) := none
  lastLogged : Option F := none
deriving DecidableEq

/-- Equality across number representations; unlike Python's, `true` is not `1`. -/
def jsonEq : Json → Json → Bool
  | .number x, .number y => x.asF64 == y.asF64
  | a, b => a == b

namespace LogTrigger
variable {F : Type} [FloatArith F]

/-- The float of a JSON number. -/
def asFloat (F : Type) [FloatArith F] (v : Json) : Option F := v.asF64.map (Rat.cast : ℚ → F)

/-- The loop over the thresholds: the new sides, and whether a crossing fired. -/
def crossSides (direction : CrossDirection) (halfBand new : F) :
    List Bool → List F → List Bool × Bool
  | side :: sides, t :: thresholds =>
    let rest := crossSides direction halfBand new sides thresholds
    if new ≥ t + halfBand ∧ side = false then
      (true :: rest.1, decide (direction = .both ∨ direction = .rise) || rest.2)
    else if new ≤ t - halfBand ∧ side = true then
      (false :: rest.1, decide (direction = .both ∨ direction = .fall) || rest.2)
    else (side :: rest.1, rest.2)
  | sides, _ => (sides, false)

/-- The recorded sides; at first every threshold is above the value. -/
def sidesOf (thresholds : List F) (state : TriggerState F) : List Bool :=
  state.sides.getD (List.replicate thresholds.length false)

/-- Values that are no number never fire. -/
def evaluateCrossing (thresholds : List F) (deadband : F) (direction : CrossDirection)
    (new : Json) (state : TriggerState F) : TriggerState F × Bool :=
  match asFloat F new with
  | none => (state, false)
  | some new =>
    let r := crossSides direction (deadband / (2 : ℚ)) new (sidesOf thresholds state) thresholds
    ({ state with sides := some r.1 }, r.2)

/-- Compare against the last value the trigger fired on; the first number fires. -/
def evaluateDelta (new : Json) (state : TriggerState F) (fires : F → F → Bool) :
    TriggerState F × Bool :=
  match asFloat F new with
  | none => (state, false)
  | some new =>
    match state.lastLogged with
    | none => ({ state with lastLogged := some new }, true)
    | some last =>
      if fires (FloatArith.abs (new - last)) last then
        ({ state with lastLogged := some new }, true)
      else (state, false)

/-- A change of at least `amount`. -/
def firesAmount (amount diff : F) (_last : F) : Bool := decide (diff ≥ amount)

/-- A change of at least `percent` of the magnitude of the last value. -/
def firesPercent (percent diff last : F) : Bool :=
  -- percent change against zero is undefined: any other value is significant
  if FloatArith.eq last (0 : ℚ) then !FloatArith.eq diff (0 : ℚ)
  else decide (diff / FloatArith.abs last * (100 : ℚ) ≥ percent)

/-- Evaluate one update of a tag. -/
def evaluate (trigger : LogTrigger F) (prev : Option Json) (new : Json)
    (state : TriggerState F) : TriggerState F × Bool :=
  match trigger with
  | cross thresholds deadband => evaluateCrossing thresholds deadband .both new state
  | rise thresholds deadband => evaluateCrossing thresholds deadband .rise new state
  | fall thresholds deadband => evaluateCrossing thresholds deadband .fall new state
  | deltaAmount amount => evaluateDelta new state (firesAmount amount)
  | deltaPercent percent => evaluateDelta new state (firesPercent percent)
  | anyChange => (state, !jsonEq (prev.getD .null) new)
  | enter value => (state, !jsonEq (prev.getD .null) new && jsonEq new value)
  | exit value => (state, !jsonEq (prev.getD .null) new && jsonEq (prev.getD .null) value)

end LogTrigger

/-- The triggers of one tag with their states, and the tag's declared default. -/
structure TriggerSet (F : Type) where
  triggers : List (LogTrigger F × TriggerState F)
  default : Option Json

namespace TriggerSet
variable {F : Type} [FloatArith F]

def new (triggers : List (LogTrigger F)) (default : Option Json) : TriggerSet F :=
  ⟨triggers.map fun t => (t, {}), default⟩

/-- Every trigger runs; the results are or-ed. -/
def evaluate (set : TriggerSet F) (current : Option Json) (new : Json) : TriggerSet F × Bool :=
  let prev := current.or set.default
  let results := set.triggers.map fun t => (t.1, t.1.evaluate prev new t.2)
  ({ set with triggers := results.map fun r => (r.1, r.2.1) }, results.any fun r => r.2.2)

end TriggerSet
end Doover
