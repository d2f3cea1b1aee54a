import Mathlib.Data.List.Chain
import Mathlib.Order.Basic

/-! # Hysteresis

A switch with two thresholds is up or down.  A value at the upper threshold or above turns it
up, a value at the lower one or below turns it down, and between them it stays as it is.  So
its changes alternate, and it makes none while the values stay strictly between the two.
-/

namespace Hysteresis
variable {F : Type} [LE F] [DecidableLE F] (lower upper : F)

/-- The side after a value, `true` being up. -/
def next (x : F) (side : Bool) : Bool :=
  if side then !decide (x ≤ lower) else decide (upper ≤ x)

/-- The side after the values. -/
def after (side : Bool) (xs : List F) : Bool := xs.foldl (fun side x => next lower upper x side) side

/-- The values that turn the switch, each with the side it turns to. -/
def changes : Bool → List F → List (F × Bool)
  | _, [] => []
  | side, x :: xs =>
    let side' := next lower upper x side
    (if side' = side then [] else [(x, side')]) ++ changes side' xs

variable {lower upper}

theorem next_eq_true {x : F} {side : Bool} (h : next lower upper x side = true)
    (hside : side = false) : upper ≤ x := by
  subst hside
  exact of_decide_eq_true h

theorem next_eq_false {x : F} {side : Bool} (h : next lower upper x side = false)
    (hside : side = true) : x ≤ lower := by
  subst hside
  rw [next, if_pos rfl, Bool.not_eq_false'] at h
  exact of_decide_eq_true h

theorem next_between {x : F} (hlower : ¬ x ≤ lower) (hupper : ¬ upper ≤ x) (side : Bool) :
    next lower upper x side = side := by
  cases side with
  | true => exact (congrArg (!·) (decide_eq_false hlower))
  | false => exact decide_eq_false hupper

@[simp] theorem after_nil (side : Bool) : after lower upper side [] = side := rfl

@[simp] theorem after_cons (side : Bool) (x : F) (xs : List F) :
    after lower upper side (x :: xs) = after lower upper (next lower upper x side) xs := rfl

theorem after_append (side : Bool) (xs ys : List F) :
    after lower upper side (xs ++ ys) = after lower upper (after lower upper side xs) ys :=
  List.foldl_append

@[simp] theorem changes_nil (side : Bool) : changes lower upper side [] = [] := rfl

theorem changes_append (side : Bool) (xs ys : List F) :
    changes lower upper side (xs ++ ys) =
      changes lower upper side xs ++ changes lower upper (after lower upper side xs) ys := by
  induction xs generalizing side with
  | nil => rfl
  | cons x xs ih => rw [List.cons_append, changes, changes, ih, after_cons, List.append_assoc]

/-- **Changes alternate**, and the first is away from the side at the start. -/
theorem alternating_changes (side : Bool) (xs : List F) :
    (side :: (changes lower upper side xs).map Prod.snd).IsChain (· ≠ ·) := by
  induction xs generalizing side with
  | nil => exact List.IsChain.singleton side
  | cons x xs ih =>
    rw [changes]
    by_cases h : next lower upper x side = side
    · have hrest := ih side
      rw [← h] at hrest
      simpa only [h, if_true, List.nil_append] using hrest
    · simp only [h, if_false, List.cons_append, List.nil_append, List.map_cons]
      exact List.IsChain.cons_cons (Ne.symm h) (ih _)

/-- **Changes are caused.** -/
theorem le_of_mem_changes {side : Bool} {xs : List F} {c : F × Bool}
    (h : c ∈ changes lower upper side xs) :
    c.1 ∈ xs ∧ (c.2 = true → upper ≤ c.1) ∧ (c.2 = false → c.1 ≤ lower) := by
  induction xs generalizing side with
  | nil => cases h
  | cons x xs ih =>
    rw [changes, List.mem_append] at h
    rcases h with h | h
    · by_cases heq : next lower upper x side = side
      · rw [if_pos heq] at h
        cases h
      · rw [if_neg heq, List.mem_singleton] at h
        subst h
        refine ⟨List.mem_cons_self, fun hup => ?_, fun hdown => ?_⟩
        · exact next_eq_true hup (Bool.eq_false_iff.mpr fun hside => heq (hup.trans hside.symm))
        · exact next_eq_false hdown (Bool.of_not_eq_false fun hside => heq (hdown.trans hside.symm))
    · obtain ⟨hmem, hrest⟩ := ih h
      exact ⟨List.mem_cons_of_mem x hmem, hrest⟩

/-- **Nothing changes between the thresholds.** -/
theorem changes_between {xs : List F} (h : ∀ x ∈ xs, ¬ x ≤ lower ∧ ¬ upper ≤ x) (side : Bool) :
    changes lower upper side xs = [] := by
  induction xs generalizing side with
  | nil => rfl
  | cons x xs ih =>
    obtain ⟨hlower, hupper⟩ := h x List.mem_cons_self
    rw [changes, next_between hlower hupper, if_pos rfl, List.nil_append]
    exact ih (fun y hy => h y (List.mem_cons_of_mem x hy)) side

end Hysteresis
