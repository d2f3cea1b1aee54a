import Mathlib.Logic.Basic
import Mathlib.Data.List.Basic

/-! # Computations that emit events and may fail

An `Emitting E ε α` has emitted a list of events, oldest first, and has ended with a
value or an error.  An error ends the computation; what was emitted before it stays
emitted.

Two properties compose along a sequence of computations: that every event emitted is of
a kind (`forall_emitted_bind`), and that a computation was refused, having emitted
nothing (`Refused.bind`).
-/

/-- A computation that emits events and ends with a value or an error. -/
structure Emitting (E ε α : Type) where
  /-- What was emitted, oldest first. -/
  emitted : List E
  result : Except ε α

namespace Emitting
variable {E ε α β : Type}

instance : Monad (Emitting E ε) where
  pure a := ⟨[], .ok a⟩
  bind x f :=
    match x.result with
    | .ok a => ⟨x.emitted ++ (f a).emitted, (f a).result⟩
    | .error e => ⟨x.emitted, .error e⟩

theorem bind_bind {γ : Type} (x : Emitting E ε α) (f : α → Emitting E ε β)
    (g : β → Emitting E ε γ) : x >>= f >>= g = x >>= fun a => f a >>= g := by
  obtain ⟨emitted, result⟩ := x
  cases result with
  | error e => rfl
  | ok a => cases hf : (f a).result <;> simp [bind, hf, List.append_assoc]

/-- A step that emits nothing. -/
def ofExcept (x : Except ε α) : Emitting E ε α := ⟨[], x⟩

theorem bind_of_ok {x : Emitting E ε α} {a : α} (h : x.result = .ok a) (f : α → Emitting E ε β) :
    x >>= f = ⟨x.emitted ++ (f a).emitted, (f a).result⟩ := by
  simp only [bind, h]

theorem bind_of_error {x : Emitting E ε α} {e : ε} (h : x.result = .error e)
    (f : α → Emitting E ε β) : x >>= f = ⟨x.emitted, .error e⟩ := by
  simp only [bind, h]

@[simp] theorem ofExcept_ok_bind (a : α) (f : α → Emitting E ε β) :
    ofExcept (.ok a) >>= f = f a := rfl

/-! ## What is emitted -/

/-- Every event that the parts of a sequence emit has `P`, so every event of the
sequence has. -/
theorem forall_emitted_bind {P : E → Prop} {x : Emitting E ε α} {f : α → Emitting E ε β}
    (hx : ∀ e ∈ x.emitted, P e) (hf : ∀ a, ∀ e ∈ (f a).emitted, P e) :
    ∀ e ∈ (x >>= f).emitted, P e := by
  cases hr : x.result with
  | error err =>
    rw [bind_of_error hr]
    exact hx
  | ok a =>
    rw [bind_of_ok hr]
    intro e he
    rcases List.mem_append.mp he with he | he
    · exact hx e he
    · exact hf a e he

/-- What the first part emitted is not taken back. -/
theorem mem_emitted_bind {x : Emitting E ε α} {f : α → Emitting E ε β} {e : E}
    (h : e ∈ x.emitted) : e ∈ (x >>= f).emitted := by
  cases hr : x.result with
  | error err =>
    rw [bind_of_error hr]
    exact h
  | ok a =>
    rw [bind_of_ok hr]
    exact List.mem_append_left _ h

/-! ## Refusals -/

/-- The computation failed before it emitted anything. -/
def Refused (x : Emitting E ε α) : Prop := x.emitted = [] ∧ ∃ e, x.result = .error e

theorem refused_error (e : ε) : Refused (⟨[], .error e⟩ : Emitting E ε α) := ⟨rfl, e, rfl⟩

/-- A sequence whose first part is refused is refused. -/
theorem Refused.bind {x : Emitting E ε α} (h : x.Refused) (f : α → Emitting E ε β) :
    (x >>= f).Refused := by
  obtain ⟨hx, e, he⟩ := h
  rw [bind_of_error he, hx]
  exact refused_error e

/-- A step that emits nothing is refused, or what follows it is. -/
theorem refused_ofExcept_bind {x : Except ε α} {f : α → Emitting E ε β}
    (h : ∀ a, x = .ok a → (f a).Refused) : (ofExcept x >>= f).Refused := by
  cases x with
  | error e => exact refused_error e
  | ok a =>
    rw [ofExcept_ok_bind]
    exact h a rfl

theorem Refused.not_mem {x : Emitting E ε α} (h : x.Refused) (e : E) : e ∉ x.emitted := by
  rw [h.1]
  exact List.not_mem_nil

end Emitting
