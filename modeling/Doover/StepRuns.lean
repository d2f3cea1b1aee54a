import Mathlib.Data.List.Induction

/-! # Runs of a step function

A system is given by what one action does to a state.  A run is a finite list of
actions, and every interleaving of several parties is such a list, the actions
naming the party that moves.  An action that is not enabled leaves the state as
it is, so every list is a run.

Two rules carry the properties of whole runs.  `exec_invariant` is the induction
of every invariant: it holds at the start and one step keeps it.  The second,
`forall_prefix_iff`, is for properties that some steps break: when, after a
prefix that has the property, a step keeps it exactly under a condition, then a
run has the property all along exactly when each of its steps meets the
condition.
-/

namespace StepRuns
variable {S A : Type}

/-- The state after the actions, in order. -/
def exec (step : S → A → S) (s : S) (as : List A) : S := as.foldl step s

section Exec
variable (step : S → A → S)

@[simp] theorem exec_nil (s : S) : exec step s [] = s := rfl

@[simp] theorem exec_cons (s : S) (a : A) (as : List A) :
    exec step s (a :: as) = exec step (step s a) as := rfl

@[simp] theorem exec_append (s : S) (as bs : List A) :
    exec step s (as ++ bs) = exec step (exec step s as) bs := List.foldl_append ..

theorem exec_concat (s : S) (as : List A) (a : A) :
    exec step s (as ++ [a]) = step (exec step s as) a := by simp

/-- What the actions put out, each by the state before it. -/
def outputs {O : Type} (out : S → A → List O) : S → List A → List O
  | _, [] => []
  | s, a :: as => out s a ++ outputs out (step s a) as

@[simp] theorem outputs_nil {O : Type} (out : S → A → List O) (s : S) :
    outputs step out s [] = [] := rfl

theorem outputs_append {O : Type} (out : S → A → List O) (s : S) (as bs : List A) :
    outputs step out s (as ++ bs) =
      outputs step out s as ++ outputs step out (exec step s as) bs := by
  induction as generalizing s with
  | nil => rfl
  | cons a as ih => rw [List.cons_append, outputs, outputs, ih, exec_cons, List.append_assoc]

theorem outputs_concat {O : Type} (out : S → A → List O) (s : S) (as : List A) (a : A) :
    outputs step out s (as ++ [a]) = outputs step out s as ++ out (exec step s as) a := by
  rw [outputs_append, outputs, outputs_nil, List.append_nil]

/-- **Invariants of runs.**  What holds at the start and is kept by every action
of the run holds at the end. -/
theorem exec_invariant {I : S → Prop} {s : S} {as : List A} (h0 : I s)
    (hstep : ∀ s, I s → ∀ a ∈ as, I (step s a)) : I (exec step s as) := by
  induction as generalizing s with
  | nil => exact h0
  | cons a as ih =>
    exact ih (hstep s h0 a List.mem_cons_self)
      fun s hs b hb => hstep s hs b (List.mem_cons_of_mem a hb)

/-- **Invariants of runs and of what they put out.**  What holds of the start and of
no output, and is kept by every action together with what it puts out, holds of the end
of the run and of all that was put out. -/
theorem outputs_invariant {O : Type} (out : S → A → List O) {I : S → List O → Prop} {s : S}
    (as : List A) (h0 : I s [])
    (hstep : ∀ s l, I s l → ∀ a ∈ as, I (step s a) (l ++ out s a)) :
    I (exec step s as) (outputs step out s as) := by
  induction as using List.reverseRecOn with
  | nil => exact h0
  | append_singleton as a ih =>
    rw [exec_concat, outputs_concat]
    refine hstep _ _ (ih fun s l hI b hb => ?_) a (List.mem_append_right as List.mem_cons_self)
    exact hstep s l hI b (List.mem_append_left [a] hb)

/-- Every step of the run meets `C`, a condition on the state before it. -/
def AllSteps (C : S → A → Prop) : S → List A → Prop
  | _, [] => True
  | s, a :: as => C s a ∧ AllSteps C (step s a) as

theorem allSteps_append {C : S → A → Prop} {s : S} {as bs : List A} :
    AllSteps step C s (as ++ bs) ↔
      AllSteps step C s as ∧ AllSteps step C (exec step s as) bs := by
  induction as generalizing s with
  | nil => exact (true_and _).to_iff.symm
  | cons a as ih => rw [List.cons_append, AllSteps, AllSteps, ih, exec_cons, and_assoc]

/-- Induction on a run whose steps all meet `C`, from its end. -/
theorem allSteps_induction {C : S → A → Prop} {s : S} {P : List A → Prop} (h0 : P [])
    (hstep : ∀ as a, P as → C (exec step s as) a → P (as ++ [a])) :
    ∀ as, AllSteps step C s as → P as := by
  intro as
  induction as using List.reverseRecOn with
  | nil => exact fun _ => h0
  | append_singleton as a ih =>
    intro h
    obtain ⟨has, ha, -⟩ := (allSteps_append step).mp h
    exact hstep as a (ih has) ha

end Exec

/-- Induction over the prefixes of a run: what holds of the empty prefix and is
kept by the run's next action holds of every prefix. -/
theorem prefix_induction {P : List A → Prop} {as : List A} (h0 : P [])
    (hstep : ∀ pre a, pre ++ [a] <+: as → P pre → P (pre ++ [a])) :
    ∀ pre, pre <+: as → P pre := by
  intro pre
  induction pre using List.reverseRecOn with
  | nil => exact fun _ => h0
  | append_singleton pre a ih =>
    exact fun hpre => hstep pre a hpre (ih ((List.prefix_append pre [a]).trans hpre))

/-- **Exact step conditions.**  Let `P` hold of the empty prefix, and let a step
after a prefix with `P` keep `P` exactly when `C` holds before it.  Then every
prefix of a run has `P` if and only if every step of the run meets `C`. -/
theorem forall_prefix_iff {P : List A → Prop} {C : List A → A → Prop} {as : List A}
    (h0 : P []) (hstep : ∀ pre a, pre ++ [a] <+: as → P pre → (P (pre ++ [a]) ↔ C pre a)) :
    (∀ pre, pre <+: as → P pre) ↔ ∀ pre a, pre ++ [a] <+: as → C pre a := by
  constructor
  · intro h pre a hpre
    exact (hstep pre a hpre (h pre ((List.prefix_append pre [a]).trans hpre))).mp (h _ hpre)
  · intro h
    exact prefix_induction h0 fun pre a hpre hP => (hstep pre a hpre hP).mpr (h pre a hpre)

end StepRuns
