import Mathlib.Logic.Function.Basic
import Mathlib.Data.List.Basic
import Mathlib.Tactic.Common

/-! # Scripts of file operations that may be cut short

A program changes files by a script of operations, each of which reaches the disk before
the next is made.  A script that is cut short, by a failing operation or by the power,
has done its first operations in full and perhaps one more in part: a write that is cut
leaves the file with something that is *torn* from what was to be written.

`replace_leaves` is the rule of replacing a file by renaming another over it: the file
is as it was or as it was to be, whenever the script is cut.
-/

namespace FileScripts
variable {P C : Type} [DecidableEq P]

/-- The files, by their paths. -/
abbrev Files (P C : Type) := P → Option C

inductive FileOp (P C : Type) where
  | write (p : P) (c : C)
  | rename (src dst : P)

namespace FileOp

def run (f : Files P C) : FileOp P C → Files P C
  | write p c => Function.update f p (some c)
  | rename src dst =>
    match f src with
    | none => f
    -- a file renamed to itself stays
    | some c => if src = dst then f else Function.update (Function.update f src none) dst (some c)

/-- The operation may change the file at `q`. -/
def Touches (q : P) : FileOp P C → Prop
  | write p _ => p = q
  | rename src dst => src = q ∨ dst = q

end FileOp

/-- The files after the whole script. -/
def runScript (f : Files P C) (ops : List (FileOp P C)) : Files P C := ops.foldl FileOp.run f

/-- What a script leaves when it is cut short somewhere, or not at all. -/
inductive Leaves (torn : C → C → Prop) : List (FileOp P C) → Files P C → Files P C → Prop where
  | stop {ops : List (FileOp P C)} {f : Files P C} : Leaves torn ops f f
  | cut {p : P} {c c' : C} {ops : List (FileOp P C)} {f : Files P C} (h : torn c c') :
    Leaves torn (.write p c :: ops) f (Function.update f p (some c'))
  | next {op : FileOp P C} {ops : List (FileOp P C)} {f f' : Files P C}
    (h : Leaves torn ops (op.run f) f') : Leaves torn (op :: ops) f f'

section Leaves
variable {torn : C → C → Prop} {ops : List (FileOp P C)} {f f' : Files P C}

theorem leaves_runScript (ops : List (FileOp P C)) (f : Files P C) :
    Leaves torn ops f (runScript f ops) := by
  induction ops generalizing f with
  | nil => exact .stop
  | cons op ops ih => exact .next (ih (op.run f))

theorem run_of_not_touches {op : FileOp P C} {q : P} (h : ¬ op.Touches q) : op.run f q = f q := by
  cases op with
  | write p c => exact Function.update_of_ne (Ne.symm h) _ _
  | rename src dst =>
    obtain ⟨hsrc, hdst⟩ := not_or.mp h
    cases hc : f src with
    | none => simp only [FileOp.run, hc]
    | some c =>
      simp only [FileOp.run, hc]
      split
      · rfl
      · rw [Function.update_of_ne (Ne.symm hdst), Function.update_of_ne (Ne.symm hsrc)]

/-- A file that no operation touches is left as it was. -/
theorem leaves_of_not_touches {q : P} (h : Leaves torn ops f f') :
    (∀ op ∈ ops, ¬ op.Touches q) → f' q = f q := by
  induction h with
  | stop => exact fun _ => rfl
  | cut htorn =>
    exact fun hops => Function.update_of_ne (Ne.symm (hops _ List.mem_cons_self)) _ _
  | @next op ops f f' _ ih =>
    intro hops
    rw [ih fun op' hop' => hops op' (List.mem_cons_of_mem _ hop')]
    exact run_of_not_touches (hops op List.mem_cons_self)

/-- To write a new file and rename it over the old one. -/
def replaceBy (tmp path : P) (c : C) : List (FileOp P C) := [.write tmp c, .rename tmp path]

theorem run_rename_update {tmp path : P} {c : C} (h : tmp ≠ path) (f : Files P C) :
    (FileOp.rename tmp path).run (Function.update f tmp (some c)) path = some c := by
  simp only [FileOp.run, Function.update_self, if_neg h]

/-- **Replacing is atomic.**  Cut anywhere, it leaves the old file or the new one. -/
theorem replace_leaves {tmp path : P} {c : C} (hne : tmp ≠ path)
    (h : Leaves torn (replaceBy tmp path c) f f') : f' path = f path ∨ f' path = some c := by
  cases h with
  | stop => exact .inl rfl
  | cut htorn => exact .inl (Function.update_of_ne hne.symm _ _)
  | next h =>
    cases h with
    | stop => exact .inl (Function.update_of_ne hne.symm _ _)
    | next h =>
      cases h
      exact .inr (run_rename_update hne f)

/-- Renaming a file to itself replaces nothing: the file itself is written, and may be
torn. -/
theorem replace_self_torn {path : P} {c c' : C} (h : torn c c') (f : Files P C) :
    Leaves torn (replaceBy path path c) f (Function.update f path (some c')) := .cut h

theorem runScript_replaceBy {tmp path : P} {c : C} (f : Files P C) :
    runScript f (replaceBy tmp path c) path = some c := by
  by_cases h : tmp = path
  · subst h
    simp [runScript, replaceBy, FileOp.run]
  · exact run_rename_update h f

end Leaves
end FileScripts
