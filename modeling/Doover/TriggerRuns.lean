import Doover.Hysteresis
import Doover.StepRuns
import Doover.TriggerRepeats

/-! # Triggers over runs of updates

A crossing trigger is one switch with hysteresis for each threshold, the band being its two
thresholds (`sideOf_after`).  Which of its changes it fires on makes no difference to the
switches, so a `Cross`, a `Rise` and a `Fall` stay in one state.

A delta trigger remembers the number it last fired on (`lastLogged_eq`), and every number
since has been close to that one.
-/

namespace Doover
namespace LogTrigger
open StepRuns

/-- An update of a tag: what the manager has for it, if anything, and the new value. -/
abbrev Update := Option Json × Json

/-- The numbers among the new values. -/
def numbers (F : Type) [FloatArith F] (updates : List Update) : List F :=
  updates.filterMap fun u => asFloat F u.2

section Runs
variable {F : Type} [FloatArith F] (trigger : LogTrigger F)

def nextState (state : TriggerState F) (u : Update) : TriggerState F :=
  (trigger.evaluate u.1 u.2 state).1

def fires (state : TriggerState F) (u : Update) : Bool := (trigger.evaluate u.1 u.2 state).2

/-- The state after these updates. -/
def after (updates : List Update) : TriggerState F := exec trigger.nextState {} updates

theorem after_concat (updates : List Update) (u : Update) :
    trigger.after (updates ++ [u]) = trigger.nextState (trigger.after updates) u :=
  exec_concat ..

theorem numbers_concat (updates : List Update) (u : Update) :
    numbers F (updates ++ [u]) = numbers F updates ++ (asFloat F u.2).toList := by
  rw [numbers, List.filterMap_append, List.filterMap_cons, List.filterMap_nil]
  cases asFloat F u.2 <;> rfl

/-- Which side of threshold number `i` is recorded, `true` being above. -/
def sideOf (thresholds : List F) (i : ℕ) (state : TriggerState F) : Bool :=
  ((sidesOf thresholds state)[i]?).getD false

/-- The new values that change the side of threshold number `i`, each with the new side. -/
def sideChanges (thresholds : List F) (i : ℕ) (updates : List Update) : List (Json × Bool) :=
  outputs trigger.nextState (fun state u =>
    let side := sideOf thresholds i (trigger.nextState state u)
    if side = sideOf thresholds i state then [] else [(u.2, side)]) {} updates

theorem sideChanges_extend (thresholds : List F) (i : ℕ) (updates more : List Update) :
    trigger.sideChanges thresholds i updates <+:
      trigger.sideChanges thresholds i (updates ++ more) :=
  ⟨_, (outputs_append ..).symm⟩

/-- The numbers the trigger fired on. -/
def firedOn (updates : List Update) : List F :=
  outputs trigger.nextState (fun state u =>
    if trigger.fires state u then (asFloat F u.2).toList else []) {} updates

theorem firedOn_concat (updates : List Update) (u : Update) :
    trigger.firedOn (updates ++ [u]) = trigger.firedOn updates ++
      if trigger.fires (trigger.after updates) u then (asFloat F u.2).toList else [] :=
  outputs_concat ..

theorem firedOn_subset {updates : List Update} {x : F} (h : x ∈ trigger.firedOn updates) :
    x ∈ numbers F updates := by
  induction updates using List.reverseRecOn with
  | nil => exact h
  | append_singleton updates u ih =>
    rw [firedOn_concat, List.mem_append] at h
    rw [numbers_concat, List.mem_append]
    rcases h with h | h
    · exact .inl (ih h)
    · split at h
      · exact .inr h
      · cases h

end Runs

/-! ## Crossings -/

section Crossing
variable {F : Type} [FloatArith F]

/-- The crossing trigger of a direction. -/
def crossingOf (direction : CrossDirection) (thresholds : List F) (deadband : F) : LogTrigger F :=
  match direction with
  | .both => cross thresholds deadband
  | .rise => rise thresholds deadband
  | .fall => fall thresholds deadband

theorem evaluate_crossingOf (direction : CrossDirection) (thresholds : List F) (deadband : F)
    (prev : Option Json) (v : Json) (state : TriggerState F) :
    (crossingOf direction thresholds deadband).evaluate prev v state =
      evaluateCrossing thresholds deadband direction v state := by
  cases direction <;> rfl

section Loop
variable (direction : CrossDirection) (halfBand x : F)

/-- One threshold: its switch takes the value, and a change fires if it is of the trigger's
direction. -/
theorem crossSides_cons (side : Bool) (sides : List Bool) (t : F) (thresholds : List F) :
    crossSides direction halfBand x (side :: sides) (t :: thresholds) =
      (Hysteresis.next (t - halfBand) (t + halfBand) x side ::
          (crossSides direction halfBand x sides thresholds).1,
        decide (Hysteresis.next (t - halfBand) (t + halfBand) x side ≠ side ∧
          (direction = .both ∨ direction = if side then .fall else .rise)) ||
          (crossSides direction halfBand x sides thresholds).2) := by
  cases side with
  | true =>
    by_cases hdown : x ≤ t - halfBand
    · simp [crossSides, Hysteresis.next, hdown]
    · simp [crossSides, Hysteresis.next, hdown]
  | false =>
    by_cases hup : t + halfBand ≤ x
    · simp [crossSides, Hysteresis.next, hup]
    · simp [crossSides, Hysteresis.next, hup]

theorem length_crossSides (sides : List Bool) (thresholds : List F) :
    (crossSides direction halfBand x sides thresholds).1.length = sides.length := by
  induction sides generalizing thresholds with
  | nil => rw [crossSides_nil]
  | cons side sides ih =>
    cases thresholds with
    | nil => rw [crossSides_no_thresholds]
    | cons t thresholds => rw [crossSides_cons, List.length_cons, List.length_cons, ih]

/-- The direction plays no part in the sides. -/
theorem crossSides_sides (sides : List Bool) (thresholds : List F) :
    (crossSides direction halfBand x sides thresholds).1 =
      (crossSides .both halfBand x sides thresholds).1 := by
  induction sides generalizing thresholds with
  | nil => rw [crossSides_nil, crossSides_nil]
  | cons side sides ih =>
    cases thresholds with
    | nil => rw [crossSides_no_thresholds, crossSides_no_thresholds]
    | cons t thresholds => rw [crossSides_cons, crossSides_cons, ih]

theorem getElem?_crossSides {sides : List Bool} {thresholds : List F} {i : ℕ} {side : Bool} {t : F}
    (hside : sides[i]? = some side) (ht : thresholds[i]? = some t) :
    (crossSides direction halfBand x sides thresholds).1[i]? =
      some (Hysteresis.next (t - halfBand) (t + halfBand) x side) := by
  induction sides generalizing thresholds i with
  | nil => cases hside
  | cons s sides ih =>
    cases thresholds with
    | nil => cases ht
    | cons t' thresholds =>
      rw [crossSides_cons]
      cases i with
      | zero =>
        cases hside
        cases ht
        rfl
      | succ i => exact ih hside ht

/-- A change either way is a change up or a change down. -/
theorem crossSides_fires (sides : List Bool) (thresholds : List F) :
    (crossSides .both halfBand x sides thresholds).2 =
      ((crossSides .rise halfBand x sides thresholds).2 ||
        (crossSides .fall halfBand x sides thresholds).2) := by
  induction sides generalizing thresholds with
  | nil => simp only [crossSides_nil, Bool.or_self]
  | cons side sides ih =>
    cases thresholds with
    | nil => simp only [crossSides_no_thresholds, Bool.or_self]
    | cons t thresholds =>
      rw [crossSides_cons, crossSides_cons, crossSides_cons, ih]
      cases side with
      | true => simp [Bool.or_left_comm]
      | false => simp [Bool.or_assoc]

/-- A change either way fires. -/
theorem crossSides_both (sides : List Bool) (thresholds : List F) :
    (crossSides .both halfBand x sides thresholds).2 =
      decide ((crossSides .both halfBand x sides thresholds).1 ≠ sides) := by
  induction sides generalizing thresholds with
  | nil => simp [crossSides_nil]
  | cons side sides ih =>
    cases thresholds with
    | nil => simp [crossSides_no_thresholds]
    | cons t thresholds =>
      rw [crossSides_cons, ih]
      simp

end Loop

variable (direction : CrossDirection) (thresholds : List F) (deadband : F)

theorem nextState_of_none {state : TriggerState F} {u : Update} (hu : asFloat F u.2 = none) :
    (crossingOf direction thresholds deadband).nextState state u = state := by
  rw [nextState, evaluate_crossingOf, evaluateCrossing, hu]

theorem sidesOf_nextState {state : TriggerState F} {u : Update} {x : F}
    (hu : asFloat F u.2 = some x) :
    sidesOf thresholds ((crossingOf direction thresholds deadband).nextState state u) =
      (crossSides direction (deadband / (2 : ℚ)) x (sidesOf thresholds state) thresholds).1 := by
  rw [nextState, evaluate_crossingOf, evaluateCrossing_of_some direction hu]
  rfl

theorem nextState_crossingOf (state : TriggerState F) (u : Update) :
    (crossingOf direction thresholds deadband).nextState state u =
      (crossingOf .both thresholds deadband).nextState state u := by
  rw [nextState, nextState, evaluate_crossingOf, evaluate_crossingOf]
  cases hx : asFloat F u.2 with
  | none => rw [evaluateCrossing, evaluateCrossing, hx]
  | some x =>
    rw [evaluateCrossing_of_some direction hx, evaluateCrossing_of_some .both hx]
    simp only [crossSides_sides direction]

/-- **All directions stay in one state.** -/
theorem after_crossingOf (updates : List Update) :
    (crossingOf direction thresholds deadband).after updates =
      (crossingOf .both thresholds deadband).after updates := by
  rw [after, after]
  exact congrArg (fun step => exec step {} updates)
    (funext fun state => funext fun u => nextState_crossingOf direction thresholds deadband state u)

theorem fires_both (state : TriggerState F) (u : Update) :
    (crossingOf .both thresholds deadband).fires state u =
      ((crossingOf .rise thresholds deadband).fires state u ||
        (crossingOf .fall thresholds deadband).fires state u) := by
  rw [fires, fires, fires, evaluate_crossingOf, evaluate_crossingOf, evaluate_crossingOf]
  cases hx : asFloat F u.2 with
  | none =>
    rw [evaluateCrossing, evaluateCrossing, evaluateCrossing, hx]
    rfl
  | some x =>
    rw [evaluateCrossing_of_some .both hx, evaluateCrossing_of_some .rise hx,
      evaluateCrossing_of_some .fall hx]
    exact crossSides_fires ..

/-- **A `Cross` fires when a side changes.** -/
theorem fires_both_iff (state : TriggerState F) (u : Update) :
    (crossingOf .both thresholds deadband).fires state u = true ↔
      sidesOf thresholds ((crossingOf .both thresholds deadband).nextState state u) ≠
        sidesOf thresholds state := by
  cases hx : asFloat F u.2 with
  | none =>
    rw [nextState_of_none .both thresholds deadband hx, fires, evaluate_crossingOf,
      evaluateCrossing, hx]
    simp
  | some x =>
    rw [sidesOf_nextState .both thresholds deadband hx, fires, evaluate_crossingOf,
      evaluateCrossing_of_some .both hx, crossSides_both, decide_eq_true_iff]

/-- There is a side for each threshold. -/
theorem length_sidesOf_after (updates : List Update) :
    (sidesOf thresholds ((crossingOf direction thresholds deadband).after updates)).length =
      thresholds.length := by
  refine exec_invariant _ (I := fun state => (sidesOf thresholds state).length = thresholds.length)
    ?_ fun state hstate u _ => ?_
  · exact List.length_replicate
  · cases hx : asFloat F u.2 with
    | none => rwa [nextState_of_none direction thresholds deadband hx]
    | some x => rw [sidesOf_nextState direction thresholds deadband hx, length_crossSides, hstate]

variable {thresholds} {i : ℕ} {t : F}

/-- **One step of a threshold's switch.** -/
theorem sideOf_nextState (ht : thresholds[i]? = some t) {state : TriggerState F}
    (hlength : (sidesOf thresholds state).length = thresholds.length) (u : Update) :
    sideOf thresholds i ((crossingOf direction thresholds deadband).nextState state u) =
      (asFloat F u.2).elim (sideOf thresholds i state) fun x =>
        Hysteresis.next (t - deadband / (2 : ℚ)) (t + deadband / (2 : ℚ)) x
          (sideOf thresholds i state) := by
  cases hx : asFloat F u.2 with
  | none =>
    rw [nextState_of_none direction thresholds deadband hx]
    rfl
  | some x =>
    have hi : i < (sidesOf thresholds state).length :=
      hlength.symm ▸ (List.getElem?_eq_some_iff.mp ht).1
    obtain ⟨side, hside⟩ : ∃ side, (sidesOf thresholds state)[i]? = some side :=
      ⟨_, List.getElem?_eq_getElem hi⟩
    rw [sideOf, sidesOf_nextState direction thresholds deadband hx,
      getElem?_crossSides direction _ x hside ht, sideOf, hside]
    rfl

/-- **A crossing trigger is a switch for each threshold.** -/
theorem sideOf_after (ht : thresholds[i]? = some t) (updates : List Update) :
    sideOf thresholds i ((crossingOf direction thresholds deadband).after updates) =
      Hysteresis.after (t - deadband / (2 : ℚ)) (t + deadband / (2 : ℚ)) false
        (numbers F updates) := by
  induction updates using List.reverseRecOn with
  | nil =>
    have hi := (List.getElem?_eq_some_iff.mp ht).1
    show (((List.replicate thresholds.length false)[i]?).getD false) = false
    rw [List.getElem?_replicate_of_lt hi]
    rfl
  | append_singleton updates u ih =>
    rw [after_concat, sideOf_nextState direction deadband ht
      (length_sidesOf_after direction thresholds deadband updates), ih, numbers_concat,
      Hysteresis.after_append]
    cases asFloat F u.2 <;> rfl

/-- Its changes are those of the switch. -/
theorem sideChanges_eq (ht : thresholds[i]? = some t) (updates : List Update) :
    ((crossingOf direction thresholds deadband).sideChanges thresholds i updates).map
        (fun c => (asFloat F c.1, c.2)) =
      (Hysteresis.changes (t - deadband / (2 : ℚ)) (t + deadband / (2 : ℚ)) false
        (numbers F updates)).map fun c => (some c.1, c.2) := by
  induction updates using List.reverseRecOn with
  | nil => rfl
  | append_singleton updates u ih =>
    have hnext := sideOf_nextState direction deadband ht
      (length_sidesOf_after direction thresholds deadband updates) u
    rw [sideChanges, outputs_concat, List.map_append, numbers_concat, Hysteresis.changes_append,
      List.map_append, ← sideChanges, ih, ← sideOf_after direction deadband ht updates]
    refine congrArg _ ?_
    rw [← after]
    simp only [hnext]
    cases hx : asFloat F u.2 with
    | none => rw [Option.elim_none, if_pos rfl, Option.toList_none, Hysteresis.changes_nil,
        List.map_nil, List.map_nil]
    | some x =>
      rw [Option.elim_some, Option.toList_some, Hysteresis.changes, Hysteresis.changes_nil,
        List.append_nil]
      split
      · rfl
      · rw [List.map_singleton, List.map_singleton, hx]

end Crossing

/-- **Crossing triggers are consistent.**  Fed the same updates, a `Cross`, a `Rise` and a `Fall`
with the same thresholds and deadband stay in one state, which has a side for each threshold,
and the `Cross` fires when one of the other two does, which is when a side changes.  A side is
up after a number at the upper edge of its band or beyond, down after one at the lower edge or
beyond, and else as it was.  So the sides of a threshold change by turns, up first, each time
for such a number, and none changes while the numbers stay inside. -/
theorem crossings_consistent (thresholds : List ℚ) (deadband : ℚ) (updates : List Update) :
    let both := cross thresholds deadband
    let up := rise thresholds deadband
    let down := fall thresholds deadband
    (up.after updates = both.after updates ∧ down.after updates = both.after updates ∧
        (sidesOf thresholds (both.after updates)).length = thresholds.length) ∧
      (∀ u, (both.fires (both.after updates) u = true ↔
          up.fires (up.after updates) u = true ∨ down.fires (down.after updates) u = true) ∧
        (both.fires (both.after updates) u = true ↔
          sidesOf thresholds (both.after (updates ++ [u])) ≠
            sidesOf thresholds (both.after updates))) ∧
      ∀ i t, thresholds[i]? = some t →
        sideOf thresholds i (both.after updates) =
          Hysteresis.after (t - deadband / 2) (t + deadband / 2) false (numbers ℚ updates) ∧
        (false :: (both.sideChanges thresholds i updates).map Prod.snd).IsChain (· ≠ ·) ∧
        (∀ c ∈ both.sideChanges thresholds i updates, ∃ x, asFloat ℚ c.1 = some x ∧
          (c.2 = true → x ≥ t + deadband / 2) ∧ (c.2 = false → x ≤ t - deadband / 2)) ∧
        ∀ more, (∀ x ∈ numbers ℚ more, t - deadband / 2 < x ∧ x < t + deadband / 2) →
          both.sideChanges thresholds i (updates ++ more) =
            both.sideChanges thresholds i updates := by
  intro both up down
  have hup : up.after updates = both.after updates :=
    after_crossingOf .rise thresholds deadband updates
  have hdown : down.after updates = both.after updates :=
    after_crossingOf .fall thresholds deadband updates
  refine ⟨⟨hup, hdown, length_sidesOf_after .both thresholds deadband updates⟩,
    fun u => ⟨?_, ?_⟩, fun i t ht => ?_⟩
  · rw [hup, hdown, ← Bool.or_eq_true]
    exact Bool.eq_iff_iff.mp (fires_both thresholds deadband (both.after updates) u)
  · rw [after_concat]
    exact fires_both_iff thresholds deadband (both.after updates) u
  · have hswitch := sideChanges_eq .both deadband ht
    refine ⟨sideOf_after .both deadband ht updates, ?_, fun c hc => ?_, fun more hinside => ?_⟩
    · have hsides := congrArg (List.map Prod.snd) (hswitch updates)
      rw [List.map_map, List.map_map] at hsides
      exact hsides ▸ Hysteresis.alternating_changes false _
    · obtain ⟨c', hc', heq⟩ := List.mem_map.mp (hswitch updates ▸ List.mem_map_of_mem hc)
      rw [Prod.mk.injEq] at heq
      obtain ⟨-, hrise, hfall⟩ := Hysteresis.le_of_mem_changes hc'
      exact ⟨c'.1, heq.1.symm, heq.2 ▸ hrise, heq.2 ▸ hfall⟩
    · have hnone := Hysteresis.changes_between
        (fun x hx => ⟨not_le.mpr (hinside x hx).1, not_le.mpr (hinside x hx).2⟩)
        (Hysteresis.after (t - deadband / 2) (t + deadband / 2) false (numbers ℚ updates))
      have hlength : (both.sideChanges thresholds i (updates ++ more)).length =
          (both.sideChanges thresholds i updates).length := by
        have hall := congrArg List.length (hswitch (updates ++ more))
        have hold := congrArg List.length (hswitch updates)
        rw [numbers, List.filterMap_append, Hysteresis.changes_append] at hall
        rw [List.length_map, List.length_map] at hall hold
        exact (hall.trans (congrArg List.length ((congrArg _ hnone).trans (List.append_nil _)))).trans
          hold.symm
      exact ((sideChanges_extend both thresholds i updates more).eq_of_length hlength.symm).symm

/-! ## Changes from the number last logged -/

section Delta
variable {F : Type} [FloatArith F]

/-- The delta trigger that fires on these distances from a baseline. -/
structure IsDelta (trigger : LogTrigger F) (far : F → F → Bool) : Prop where
  evaluate_eq : ∀ prev v state, trigger.evaluate prev v state = evaluateDelta v state far

variable {trigger : LogTrigger F} {far : F → F → Bool}

theorem IsDelta.of_none (h : IsDelta trigger far) (state : TriggerState F) {u : Update}
    (hu : asFloat F u.2 = none) :
    trigger.fires state u = false ∧ trigger.nextState state u = state := by
  rw [fires, nextState, h.evaluate_eq, evaluateDelta, hu]
  exact ⟨rfl, rfl⟩

/-- A number fires when there is no baseline, or it is far from it. -/
theorem IsDelta.fires_iff (h : IsDelta trigger far) (state : TriggerState F) {u : Update} {x : F}
    (hu : asFloat F u.2 = some x) :
    trigger.fires state u = true ↔
      ∀ b, state.lastLogged = some b → far (FloatArith.abs (x - b)) b = true := by
  rw [fires, h.evaluate_eq, evaluateDelta, hu]
  cases hlast : state.lastLogged with
  | none =>
    refine iff_of_true rfl fun b hb => ?_
    cases hb
  | some b =>
    simp only [Option.some.injEq, forall_eq']
    split
    · exact iff_of_true rfl ‹_›
    · exact iff_of_false Bool.false_ne_true ‹_›

/-- It becomes the baseline when it fires. -/
theorem IsDelta.lastLogged_nextState (h : IsDelta trigger far) (state : TriggerState F)
    {u : Update} {x : F} (hu : asFloat F u.2 = some x) :
    (trigger.nextState state u).lastLogged =
      if trigger.fires state u then some x else state.lastLogged := by
  rw [nextState, fires, h.evaluate_eq, evaluateDelta, hu]
  cases hlast : state.lastLogged with
  | none => rfl
  | some b =>
    simp only
    split
    · rfl
    · exact hlast

/-- **The baseline is the number last fired on.** -/
theorem IsDelta.lastLogged_eq (h : IsDelta trigger far) (updates : List Update) :
    (trigger.after updates).lastLogged = (trigger.firedOn updates).getLast? := by
  induction updates using List.reverseRecOn with
  | nil => rfl
  | append_singleton updates u ih =>
    rw [after_concat, firedOn_concat]
    cases hu : asFloat F u.2 with
    | none =>
      obtain ⟨hfires, hstate⟩ := h.of_none (trigger.after updates) hu
      rw [hstate, hfires, ih, if_neg Bool.false_ne_true, List.append_nil]
    | some x =>
      rw [h.lastLogged_nextState _ hu]
      split
      · rw [Option.toList_some, List.getLast?_concat]
      · rw [ih, List.append_nil]

end Delta

/-- What a delta trigger is for, `Close x b` being that `x` has not drifted from `b`. -/
structure BoundsDrift (trigger : LogTrigger ℚ) (Close : ℚ → ℚ → Prop) : Prop where
  /-- The first number fires. -/
  first : ∀ updates u, numbers ℚ updates = [] → (asFloat ℚ u.2).isSome = true →
    trigger.fires (trigger.after updates) u = true
  /-- The last number is close to the last one the trigger fired on. -/
  close : ∀ updates x, (numbers ℚ updates).getLast? = some x →
    ∃ b, (trigger.firedOn updates).getLast? = some b ∧ Close x b
  /-- A number fires exactly when it is not. -/
  fires_iff : ∀ updates u x b, asFloat ℚ u.2 = some x →
    (trigger.firedOn updates).getLast? = some b →
      (trigger.fires (trigger.after updates) u = true ↔ ¬ Close x b)
  /-- Anything else changes nothing. -/
  others : ∀ updates u, asFloat ℚ u.2 = none → trigger.fires (trigger.after updates) u = false ∧
    trigger.after (updates ++ [u]) = trigger.after updates

theorem IsDelta.boundsDrift {trigger : LogTrigger ℚ} {far : ℚ → ℚ → Bool} {Close : ℚ → ℚ → Prop}
    (h : IsDelta trigger far) (hfar : ∀ x b, far |x - b| b = true ↔ ¬ Close x b)
    (hself : ∀ x, Close x x) : BoundsDrift trigger Close where
  first updates u hnone hu := by
    obtain ⟨x, hx⟩ := Option.isSome_iff_exists.mp hu
    rw [h.fires_iff _ hx, h.lastLogged_eq]
    intro b hb
    have hmem := trigger.firedOn_subset (List.mem_of_getLast? hb)
    rw [hnone] at hmem
    cases hmem
  close updates := by
    induction updates using List.reverseRecOn with
    | nil => exact fun x hx => by cases hx
    | append_singleton updates u ih =>
      intro x hx
      rw [numbers_concat] at hx
      rw [firedOn_concat]
      cases hu : asFloat ℚ u.2 with
      | none =>
        rw [hu, Option.toList_none, List.append_nil] at hx
        obtain ⟨b, hb, hclose⟩ := ih x hx
        rw [(h.of_none _ hu).1, if_neg Bool.false_ne_true, List.append_nil]
        exact ⟨b, hb, hclose⟩
      | some y =>
        rw [hu, Option.toList_some, List.getLast?_concat, Option.some.injEq] at hx
        subst hx
        by_cases hfires : trigger.fires (trigger.after updates) u = true
        · rw [if_pos hfires, Option.toList_some, List.getLast?_concat]
          exact ⟨y, rfl, hself y⟩
        · -- there is a baseline, and the number is not far from it
          rw [if_neg hfires, List.append_nil, ← h.lastLogged_eq]
          rw [h.fires_iff _ hu] at hfires
          push Not at hfires
          obtain ⟨b, hb, hnear⟩ := hfires
          exact ⟨b, hb, not_not.mp fun hfar' => hnear ((hfar y b).mpr hfar')⟩
  fires_iff updates u x b hu hb := by
    rw [h.fires_iff _ hu, h.lastLogged_eq, ← hfar]
    constructor
    · exact fun hall => hall b hb
    · intro hb' b' hb''
      rw [hb, Option.some.injEq] at hb''
      exact hb'' ▸ hb'
  others updates u hu := by
    rw [after_concat]
    exact h.of_none _ hu

/-- Less than `percent` of the baseline away from it; nothing is close to zero but zero. -/
def WithinPercent (percent x b : ℚ) : Prop :=
  if b = 0 then x = 0 else |x - b| < percent / 100 * |b|

theorem firesPercent_iff (percent x b : ℚ) :
    firesPercent percent |x - b| b = true ↔ ¬ WithinPercent percent x b := by
  have heq : ∀ y z : ℚ, FloatArith.eq y z = decide (y = z) := fun _ _ => rfl
  have habs : (FloatArith.abs b : ℚ) = |b| := rfl
  rw [firesPercent, WithinPercent, heq, heq, habs]
  by_cases hb : b = 0
  · subst hb
    simp
  · have hpos : 0 < |b| := abs_pos.mpr hb
    have hb' : ¬ decide (b = Rat.cast 0) = true := fun h => hb (of_decide_eq_true h)
    rw [if_neg hb', if_neg hb, decide_eq_true_iff, not_lt]
    show percent ≤ |x - b| / |b| * 100 ↔ percent / 100 * |b| ≤ |x - b|
    rw [← div_le_iff₀ (by norm_num), le_div_iff₀ hpos]

/-- **Delta triggers bound the drift.** -/
theorem deltas_bound_drift (amount percent : ℚ) (hamount : 0 < amount) (hpercent : 0 < percent) :
    BoundsDrift (deltaAmount amount) (fun x b => |x - b| < amount) ∧
      BoundsDrift (deltaPercent percent) (WithinPercent percent) := by
  have hbyAmount : IsDelta (deltaAmount amount) (firesAmount amount) := ⟨fun _ _ _ => rfl⟩
  have hbyPercent : IsDelta (deltaPercent percent) (firesPercent percent) := ⟨fun _ _ _ => rfl⟩
  constructor
  · refine hbyAmount.boundsDrift (fun x b => ?_) fun x => ?_
    · rw [firesAmount, decide_eq_true_iff]
      exact not_lt.symm
    · rwa [sub_self, abs_zero]
  · refine hbyPercent.boundsDrift (firesPercent_iff percent) fun x => ?_
    rw [WithinPercent]
    split
    · assumption
    · rw [sub_self, abs_zero]
      exact mul_pos (by linarith) (abs_pos.mpr ‹_›)

theorem deltas_bound_drift_ten :
    BoundsDrift (deltaAmount 10) (fun x b => |x - b| < 10) ∧
      BoundsDrift (deltaPercent 10) (WithinPercent 10) :=
  deltas_bound_drift 10 10 (by norm_num) (by norm_num)

end LogTrigger
end Doover
