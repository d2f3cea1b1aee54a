import Mathlib.Data.List.Perm.Subperm
import Doover.JsonValue

/-! # Equality of JSON values

Two readers of a value agree on everything but numbers: `==` tells `1` from `1.0`, a JSON
Schema does not.  `eqBy r` is the equality that compares numbers by `r`.  It is an
equivalence when `r` is, and a coarser `r` makes it coarser.

Two objects are equal when they have the same keys with equal values, in whatever order
(`eqBy_object_iff`).
-/

namespace Doover
namespace Json
variable {r : Number → Number → Bool}

mutual
/-- Equality of values, numbers compared by `r`. -/
def eqBy (r : Number → Number → Bool) : Json → Json → Bool
  | .null, .null => true
  | .bool a, .bool b => a == b
  | .number a, .number b => r a b
  | .string a, .string b => a == b
  | .array xs, .array ys => eqListBy r xs ys
  | .object ⟨ks, _, vs⟩, .object n =>
    ks.length == n.len && ks.attach.all fun k =>
      match n.get? k.1 with
      | some v => eqBy r (vs k) v
      | none => false
  | _, _ => false
/-- Equality of arrays, element by element. -/
def eqListBy (r : Number → Number → Bool) : List Json → List Json → Bool
  | [], [] => true
  | x :: xs, y :: ys => eqBy r x y && eqListBy r xs ys
  | _, _ => false
end

/-- Two objects are equal when they have as many keys and each key of the one has an equal
value in the other. -/
theorem eqBy_object_iff {m n : IndexMap String Json} :
    eqBy r (.object m) (.object n) = true ↔
      m.len = n.len ∧
        ∀ k v, m.get? k = some v → ∃ w, n.get? k = some w ∧ eqBy r v w = true := by
  obtain ⟨ks, nd, vs⟩ := m
  rw [eqBy, Bool.and_eq_true, beq_iff_eq, List.all_eq_true]
  refine and_congr Iff.rfl ?_
  constructor
  · intro h k v hv
    obtain ⟨hk, rfl⟩ := IndexMap.get?_eq_some_iff.mp hv
    have heq := h ⟨k, hk⟩ (List.mem_attach ..)
    cases hn : n.get? k with
    | some w =>
      simp only [hn] at heq
      exact ⟨w, rfl, heq⟩
    | none => simp only [hn, Bool.false_eq_true] at heq
  · intro h k _
    obtain ⟨w, hw, heq⟩ := h k.1 (vs k) (IndexMap.get?_of_mem k.2)
    simp only [hw, heq]

theorem eqListBy_iff_forall₂ {xs ys : List Json} :
    eqListBy r xs ys = true ↔ List.Forall₂ (fun x y => eqBy r x y = true) xs ys := by
  induction xs generalizing ys with
  | nil => cases ys <;> simp [eqListBy]
  | cons x xs ih => cases ys <;> simp [eqListBy, ih]

/-- Only an object equals an object. -/
theorem isObject_eq_of_eqBy {i j : Json} (h : eqBy r i j = true) : i.isObject = j.isObject := by
  cases i <;> cases j <;> first | rfl | simp [eqBy] at h

theorem eqBy_refl (hr : ∀ n, r n n = true) (j : Json) : eqBy r j j = true := by
  induction j with
  | null => rfl
  | bool b => simp [eqBy]
  | number n => exact hr n
  | string s => simp [eqBy]
  | array items ih =>
    rw [eqBy, eqListBy_iff_forall₂]
    exact List.forall₂_same.mpr ih
  | object fields ih =>
    rw [eqBy_object_iff]
    exact ⟨rfl, fun k v hv => ⟨v, hv, ih k v hv⟩⟩

/-- Maps of one length have the same keys when one's keys are the other's. -/
theorem mem_keys_of_len_eq {m n : IndexMap String Json} (hlen : m.len = n.len)
    (h : ∀ k ∈ m.keys, k ∈ n.keys) {k : String} (hk : k ∈ n.keys) : k ∈ m.keys :=
  (((List.subperm_of_subset m.nodup h).perm_of_length_le hlen.ge).mem_iff).mpr hk

section Related
variable {α β : Type} {R : α → β → Prop} {x : Option α} {y : Option β}

theorem rel_some_left {v : α} : Option.Rel R (some v) y ↔ ∃ w, y = some w ∧ R v w := by
  cases y <;> simp

theorem rel_none_left : Option.Rel R none y ↔ y = none := by
  cases y <;> simp

theorem rel_some_right {w : β} : Option.Rel R x (some w) ↔ ∃ v, x = some v ∧ R v w := by
  cases x <;> simp

theorem rel_none_right : Option.Rel R x none ↔ x = none := by
  cases x <;> simp

end Related

/-- As many keys, and related values at each key of the one: related at every key, or missing
in both. -/
theorem len_eq_and_iff_rel {R : Json → Json → Prop} {m n : IndexMap String Json} :
    (m.len = n.len ∧ ∀ k v, m.get? k = some v → ∃ w, n.get? k = some w ∧ R v w) ↔
      ∀ k, Option.Rel R (m.get? k) (n.get? k) := by
  constructor
  · rintro ⟨hlen, hvals⟩ k
    have hsub : ∀ k ∈ m.keys, k ∈ n.keys := by
      intro k hk
      obtain ⟨v, hv⟩ := IndexMap.mem_keys_iff.mp hk
      obtain ⟨w, hw, -⟩ := hvals k v hv
      exact IndexMap.mem_keys_iff.mpr ⟨w, hw⟩
    cases hm : m.get? k with
    | some v =>
      obtain ⟨w, hw, hr⟩ := hvals k v hm
      rw [hw]
      exact .some hr
    | none =>
      have hnone : n.get? k = none := IndexMap.get?_eq_none_iff.mpr fun hk =>
        IndexMap.get?_eq_none_iff.mp hm (mem_keys_of_len_eq hlen hsub hk)
      rw [hnone]
      exact .none
  · intro h
    refine ⟨IndexMap.len_eq_of_keys fun k => ?_, fun k v hv => ?_⟩
    · rw [IndexMap.mem_keys_iff, IndexMap.mem_keys_iff]
      have hk := h k
      generalize m.get? k = x at hk
      generalize n.get? k = y at hk
      cases hk <;> simp
    · have hk := h k
      rw [hv] at hk
      exact rel_some_left.mp hk

/-- Arrays compare either way when their items do. -/
theorem eqListBy_symm {xs ys : List Json}
    (ih : ∀ x ∈ xs, ∀ {y}, eqBy r x y = true → eqBy r y x = true)
    (h : eqListBy r xs ys = true) : eqListBy r ys xs = true := by
  rw [eqListBy_iff_forall₂] at h ⊢
  induction h with
  | nil => exact .nil
  | cons heq _ ihs =>
    refine .cons (ih _ (List.mem_cons_self ..) heq) (ihs fun x hx => ih x ?_)
    exact List.mem_cons_of_mem _ hx

theorem eqBy_symm (hr : ∀ m n, r m n = true → r n m = true) {i j : Json}
    (h : eqBy r i j = true) : eqBy r j i = true := by
  induction i generalizing j with
  | null => cases j <;> simp_all [eqBy]
  | bool b => cases j <;> simp_all [eqBy]
  | number n =>
    cases j with
    | number n' => exact hr n n' h
    | _ => simp [eqBy] at h
  | string s => cases j <;> simp_all [eqBy]
  | array items ih =>
    cases j with
    | array items' =>
      rw [eqBy] at h ⊢
      exact eqListBy_symm ih h
    | _ => simp [eqBy] at h
  | object fields ih =>
    cases j with
    | object fields' =>
      rw [eqBy_object_iff] at h ⊢
      obtain ⟨hlen, hfields⟩ := h
      have hkeys : ∀ k ∈ fields.keys, k ∈ fields'.keys := by
        intro k hk
        obtain ⟨v, hv⟩ := IndexMap.mem_keys_iff.mp hk
        obtain ⟨w, hw, -⟩ := hfields k v hv
        exact IndexMap.mem_keys_iff.mpr ⟨w, hw⟩
      refine ⟨hlen.symm, fun k w hw => ?_⟩
      obtain ⟨v, hv⟩ := IndexMap.mem_keys_iff.mp
        (mem_keys_of_len_eq hlen hkeys (IndexMap.mem_keys_iff.mpr ⟨w, hw⟩))
      obtain ⟨w', hw', heq⟩ := hfields k v hv
      obtain rfl := Option.some.inj (hw.symm.trans hw')
      exact ⟨v, hv, ih k v hv heq⟩
    | _ => simp [eqBy] at h

/-- Arrays equal to one are equal to each other when its items' equals are. -/
theorem eqListBy_trans {xs ys zs : List Json}
    (ih : ∀ x ∈ xs, ∀ {y z}, eqBy r x y = true → eqBy r y z = true → eqBy r x z = true)
    (h : eqListBy r xs ys = true) (h' : eqListBy r ys zs = true) : eqListBy r xs zs = true := by
  rw [eqListBy_iff_forall₂] at h h' ⊢
  induction h generalizing zs with
  | nil =>
    cases h' with
    | nil => exact .nil
  | cons hxy _ ihs =>
    cases h' with
    | cons hyz htail =>
      refine .cons (ih _ (List.mem_cons_self ..) hxy hyz) (ihs (fun x hx => ih x ?_) htail)
      exact List.mem_cons_of_mem _ hx

theorem eqBy_trans (hr : ∀ l m n, r l m = true → r m n = true → r l n = true) {i j k : Json}
    (h : eqBy r i j = true) (h' : eqBy r j k = true) : eqBy r i k = true := by
  induction i generalizing j k with
  | null => cases j <;> simp_all [eqBy]
  | bool b => cases j <;> cases k <;> simp_all [eqBy]
  | number n =>
    cases j with
    | number n' =>
      cases k with
      | number n'' => exact hr n n' n'' h h'
      | _ => simp [eqBy] at h'
    | _ => simp [eqBy] at h
  | string s => cases j <;> cases k <;> simp_all [eqBy]
  | array items ih =>
    cases j with
    | array items' =>
      cases k with
      | array items'' =>
        rw [eqBy] at h h' ⊢
        exact eqListBy_trans ih h h'
      | _ => simp [eqBy] at h'
    | _ => simp [eqBy] at h
  | object fields ih =>
    cases j with
    | object fields' =>
      cases k with
      | object fields'' =>
        rw [eqBy_object_iff] at h h' ⊢
        refine ⟨h.1.trans h'.1, fun n v hv => ?_⟩
        obtain ⟨w, hw, hvw⟩ := h.2 n v hv
        obtain ⟨u, hu, hwu⟩ := h'.2 n w hw
        exact ⟨u, hu, ih n v hv hvw hwu⟩
      | _ => simp [eqBy] at h'
    | _ => simp [eqBy] at h

/-- Values equal in two ways are equal in any way that the two make of numbers. -/
theorem eqBy_of_and {r' r'' : Number → Number → Bool}
    (hr : ∀ m n, r m n = true → r' m n = true → r'' m n = true) {i j : Json}
    (h : eqBy r i j = true) (h' : eqBy r' i j = true) : eqBy r'' i j = true := by
  induction i generalizing j with
  | null => cases j <;> simp_all [eqBy]
  | bool b => cases j <;> simp_all [eqBy]
  | number n =>
    cases j with
    | number n' => exact hr n n' h h'
    | _ => simp [eqBy] at h
  | string s => cases j <;> simp_all [eqBy]
  | array items ih =>
    cases j with
    | array items' =>
      rw [eqBy, eqListBy_iff_forall₂] at h h' ⊢
      induction h with
      | nil => exact .nil
      | cons heq _ ihs =>
        cases h' with
        | cons heq' htail =>
          refine .cons (ih _ (List.mem_cons_self ..) heq heq') (ihs (fun x hx => ih x ?_) htail)
          exact List.mem_cons_of_mem _ hx
    | _ => simp [eqBy] at h
  | object fields ih =>
    cases j with
    | object fields' =>
      rw [eqBy_object_iff] at h h' ⊢
      refine ⟨h.1, fun k v hv => ?_⟩
      obtain ⟨w, hw, heq⟩ := h.2 k v hv
      obtain ⟨w', hw', heq'⟩ := h'.2 k v hv
      obtain rfl := Option.some.inj (hw.symm.trans hw')
      exact ⟨w, hw, ih k v hv heq heq'⟩
    | _ => simp [eqBy] at h

/-- A coarser comparison of numbers makes a coarser equality. -/
theorem eqBy_mono {r' : Number → Number → Bool} (hr : ∀ m n, r m n = true → r' m n = true)
    {i j : Json} (h : eqBy r i j = true) : eqBy r' i j = true :=
  eqBy_of_and (fun m n hmn _ => hr m n hmn) h h

/-! ## `==` -/

/-- `==` tells the two forms of a number apart. -/
theorem beq_eq_eqBy (i j : Json) : beq i j = eqBy (fun m n => decide (m = n)) i j := by
  induction i generalizing j with
  | array items ih =>
    cases j with
    | array items' =>
      rw [beq, eqBy]
      induction items generalizing items' with
      | nil => cases items' <;> rfl
      | cons x xs ihs =>
        cases items' with
        | nil => rfl
        | cons y ys =>
          rw [beqList, eqListBy, ih x (List.mem_cons_self ..),
            ihs (fun i hi => ih i (List.mem_cons_of_mem _ hi))]
    | _ => rfl
  | object fields ih =>
    cases j with
    | object fields' =>
      obtain ⟨ks, nd, vs⟩ := fields
      rw [beq, eqBy]
      refine congrArg _ (congrArg (List.all ks.attach) (funext fun k => ?_))
      cases fields'.get? k.1 with
      | none => rfl
      | some v => exact ih k.1 (vs k) (IndexMap.get?_of_mem k.2) v
    | _ => rfl
  | _ => cases j <;> rfl

theorem beq_refl (j : Json) : beq j j = true := by
  rw [beq_eq_eqBy]
  exact eqBy_refl (fun n => decide_eq_true rfl) j

theorem beq_symm {i j : Json} (h : beq i j = true) : beq j i = true := by
  rw [beq_eq_eqBy] at h ⊢
  refine eqBy_symm (fun m n hmn => ?_) h
  exact decide_eq_true (of_decide_eq_true hmn).symm

theorem beq_trans {i j k : Json} (h : beq i j = true) (h' : beq j k = true) :
    beq i k = true := by
  rw [beq_eq_eqBy] at h h' ⊢
  refine eqBy_trans (fun l m n hlm hmn => ?_) h h'
  exact decide_eq_true ((of_decide_eq_true hlm).trans (of_decide_eq_true hmn))

theorem beq_object_iff {m n : IndexMap String Json} :
    beq (.object m) (.object n) = true ↔
      ∀ k, Option.Rel (fun v w => beq v w = true) (m.get? k) (n.get? k) := by
  rw [beq_eq_eqBy, eqBy_object_iff, len_eq_and_iff_rel]
  refine forall_congr' fun k => ?_
  simp only [beq_eq_eqBy]

theorem isObject_eq_of_beq {i j : Json} (h : beq i j = true) : i.isObject = j.isObject := by
  rw [beq_eq_eqBy] at h
  exact isObject_eq_of_eqBy h

/-! ## Equality in a JSON Schema -/

/-- A JSON Schema compares numbers by what they denote. -/
def schemaEq : Json → Json → Bool := eqBy fun m n => decide (m.value = n.value)

theorem schemaEq_symm {i j : Json} (h : schemaEq i j = true) : schemaEq j i = true := by
  refine eqBy_symm (fun m n hmn => ?_) h
  exact decide_eq_true (of_decide_eq_true hmn).symm

theorem schemaEq_trans {i j k : Json} (h : schemaEq i j = true) (h' : schemaEq j k = true) :
    schemaEq i k = true := by
  refine eqBy_trans (fun l m n hlm hmn => ?_) h h'
  exact decide_eq_true ((of_decide_eq_true hlm).trans (of_decide_eq_true hmn))

/-- Whether each number of the one value is an integer where the other's is, and a double
where it is one. -/
def sameForms : Json → Json → Bool := eqBy fun m n => m.isInt == n.isInt

theorem eq_of_value_eq {m n : Number} (h : m.value = n.value) (hform : m.isInt = n.isInt) :
    m = n := by
  cases m with
  | int a ha =>
    cases n with
    | int b hb =>
      have hab : (a : ℚ) = b := h
      obtain rfl : a = b := by exact_mod_cast hab
      rfl
    | float y => cases hform
  | float x =>
    cases n with
    | int b hb => cases hform
    | float y =>
      obtain ⟨a, ha⟩ := x
      obtain ⟨b, hb⟩ := y
      have hab : a = b := h
      subst hab
      rfl

/-- Values are equal when a schema takes them for the same and their numbers have the same
forms. -/
theorem beq_iff {i j : Json} :
    beq i j = true ↔ schemaEq i j = true ∧ sameForms i j = true := by
  rw [beq_eq_eqBy]
  constructor
  · intro h
    constructor
    · refine eqBy_mono (fun m n hmn => ?_) h
      exact decide_eq_true (congrArg Number.value (of_decide_eq_true hmn))
    · refine eqBy_mono (fun m n hmn => ?_) h
      exact beq_iff_eq.mpr (congrArg Number.isInt (of_decide_eq_true hmn))
  · rintro ⟨hvalue, hform⟩
    refine eqBy_of_and (fun m n hmn hmn' => ?_) hvalue hform
    exact decide_eq_true (eq_of_value_eq (of_decide_eq_true hmn) (beq_iff_eq.mp hmn'))

end Json
end Doover
