import Doover.Doubles
import Doover.JsonEquality
import Doover.JsonPath

/-! # When a generated diff is empty

A write is skipped when the diff from the values held to the values written is
empty.  This module says what that means for a lookup: `generateDiff` is empty
only if every value written is already held, up to Python's equality
(`lookup_of_isEmptyObject_generateDiff`), and it is empty for values that were
just applied (`isEmptyObject_generateDiff_of_held`).
-/

namespace Doover
open Json

/-! ## Python's equality -/

theorem numbersEq_refl (x : PyNum) : numbersEq x x = true := by
  cases x <;> simp [numbersEq]

theorem numericValue_number (n : Number) : ∃ x, numericValue (.number n) = some x := by
  rw [numericValue]
  cases n.asI64 with
  | some i => exact ⟨_, rfl⟩
  | none => cases n.asU64 <;> exact ⟨_, rfl⟩

theorem numericValue_int (n : ℤ) (range : -2 ^ 63 ≤ n ∧ n < 2 ^ 64) :
    numericValue (.number (.int n range)) = some (.int n) := by
  rw [numericValue, Number.asI64, Number.asU64]
  by_cases h : n < 2 ^ 63
  · rw [if_pos h]
  · have hpos : 0 ≤ n := by omega
    rw [if_neg h, if_pos hpos]
    simp only [Int.toNat_of_nonneg hpos]

theorem numericValue_float (x : F64) :
    numericValue (.number (.float x)) = some (.float x.val) := rfl

theorem numericValue_bool (b : Bool) : numericValue (.bool b) = some (.int b.toInt) := rfl

theorem pythonListEq_refl {items : List Json} (h : ∀ i ∈ items, pythonJsonEq i i = true) :
    pythonListEq items items = true := by
  induction items with
  | nil => rfl
  | cons x xs ih =>
    rw [pythonListEq, h x List.mem_cons_self, Bool.true_and]
    exact ih fun i hi => h i (List.mem_cons_of_mem x hi)

theorem pythonJsonEq_refl (j : Json) : pythonJsonEq j j = true := by
  induction j with
  | null => rfl
  | bool b => cases b <;> rfl
  | number n =>
    obtain ⟨x, hx⟩ := numericValue_number n
    rw [pythonJsonEq.eq_def]
    simp only [hx, numbersEq_refl]
  | string s => simp [pythonJsonEq]
  | array items ih => rw [pythonJsonEq, pythonListEq_refl ih]; simp
  | object fields ih =>
    obtain ⟨ks, nd, vs⟩ := fields
    rw [pythonJsonEq, Bool.and_eq_true, List.all_eq_true]
    refine ⟨by simp [IndexMap.len], fun k _ => ?_⟩
    have hk : (⟨ks, nd, vs⟩ : IndexMap String Json).get? k.1 = some (vs k) :=
      IndexMap.get?_of_mem k.2
    simp only [hk, ih k.1 (vs k) hk]

/-- Only an object equals an object. -/
theorem isObject_of_pythonJsonEq {a b : Json} (h : pythonJsonEq a b = true) :
    a.isObject = b.isObject := by
  cases a <;> cases b <;> simp_all [pythonJsonEq, isObject, numericValue]

theorem pythonJsonEq_object_leaf {v : Json} (hv : v.isObject = false)
    (o : IndexMap String Json) : pythonJsonEq (.object o) v = false := by
  by_contra h
  rw [Bool.not_eq_false] at h
  rw [← isObject_of_pythonJsonEq h] at hv
  cases hv

/-- Only `null` equals `null`. -/
theorem eq_null_of_pythonJsonEq {v : Json} (h : pythonJsonEq .null v = true) : v = .null := by
  cases v <;> simp_all [pythonJsonEq, numericValue]

/-- **Equal objects.**  Each key has equal values in both, or is in neither. -/
theorem pythonJsonEq_object_iff {m n : IndexMap String Json} :
    pythonJsonEq (.object m) (.object n) = true ↔
      ∀ k, Option.Rel (fun v w => pythonJsonEq v w = true) (m.get? k) (n.get? k) := by
  have hunfold : pythonJsonEq (.object m) (.object n) = true ↔ m.len = n.len ∧
      ∀ k v, m.get? k = some v → ∃ w, n.get? k = some w ∧ pythonJsonEq v w = true := by
    obtain ⟨ks, nd, vs⟩ := m
    rw [pythonJsonEq, Bool.and_eq_true, beq_iff_eq, List.all_eq_true]
    refine and_congr Iff.rfl ⟨fun h k v hv => ?_, fun h k _ => ?_⟩
    · obtain ⟨hk, rfl⟩ := IndexMap.get?_eq_some_iff.mp hv
      have hval := h ⟨k, hk⟩ (List.mem_attach ..)
      cases hn : n.get? k with
      | some w =>
        simp only [hn] at hval
        exact ⟨w, rfl, hval⟩
      | none => simp only [hn, Bool.false_eq_true] at hval
    · obtain ⟨w, hw, heq⟩ := h k.1 (vs k) (IndexMap.get?_of_mem k.2)
      simp only [hw, heq]
  exact hunfold.trans len_eq_and_iff_rel

theorem numbersEq_comm (x y : PyNum) : numbersEq x y = numbersEq y x := by
  cases x <;> cases y <;> simp [numbersEq, eq_comm]

/-- A boolean or a number equals what is equal to it as a number. -/
theorem pythonJsonEq_of_numericValue {a b : Json} {x : PyNum} (ha : numericValue a = some x) :
    pythonJsonEq a b = (numericValue b).any (numbersEq x) := by
  cases a with
  | bool _ | number _ =>
    rw [pythonJsonEq.eq_def]
    cases hb : numericValue b <;> cases b <;> simp only [ha, hb] <;> rfl
  | _ => cases ha

theorem pythonListEq_symm {xs ys : List Json}
    (ih : ∀ x ∈ xs, ∀ {y}, pythonJsonEq x y = true → pythonJsonEq y x = true)
    (h : pythonListEq xs ys = true) : pythonListEq ys xs = true := by
  induction xs generalizing ys with
  | nil => cases ys <;> rfl
  | cons x xs ihs =>
    cases ys with
    | nil => rfl
    | cons y ys =>
      rw [pythonListEq, Bool.and_eq_true] at h ⊢
      exact ⟨ih x List.mem_cons_self h.1, ihs (fun x hx => ih x (List.mem_cons_of_mem _ hx)) h.2⟩

theorem pythonJsonEq_symm_of_numericValue {a b : Json} {x : PyNum} (hx : numericValue a = some x)
    (h : pythonJsonEq a b = true) : pythonJsonEq b a = true := by
  rw [pythonJsonEq_of_numericValue hx] at h
  obtain ⟨y, hy, hxy⟩ := (Option.any_eq_true _ _).mp h
  rw [pythonJsonEq_of_numericValue hy, hx, Option.any_some, numbersEq_comm, hxy]

/-- Python's equality goes either way. -/
theorem pythonJsonEq_symm {a b : Json} (h : pythonJsonEq a b = true) : pythonJsonEq b a = true := by
  induction a generalizing b with
  | array items ih =>
    cases b with
    | array items' =>
      rw [pythonJsonEq, Bool.and_eq_true, beq_iff_eq] at h ⊢
      exact ⟨h.1.symm, pythonListEq_symm ih h.2⟩
    | _ => simp [pythonJsonEq, numericValue] at h
  | object fields ih =>
    cases b with
    | object fields' =>
      rw [pythonJsonEq_object_iff] at h ⊢
      intro k
      have hk := h k
      cases hf : fields.get? k with
      | some v =>
        rw [hf] at hk
        obtain ⟨w, hw, heq⟩ := rel_some_left.mp hk
        rw [hw]
        exact .some (ih k v hf heq)
      | none =>
        rw [hf] at hk
        rw [rel_none_left.mp hk]
        exact .none
    | _ => simp [pythonJsonEq, numericValue] at h
  | string s => cases b <;> simp_all [pythonJsonEq, numericValue]
  | null => cases b <;> simp_all [pythonJsonEq, numericValue]
  | bool x => exact pythonJsonEq_symm_of_numericValue rfl h
  | number n =>
    obtain ⟨x, hx⟩ := numericValue_number n
    exact pythonJsonEq_symm_of_numericValue hx h

/-! ### Values a schema takes for the same -/

/-- An integer that is the value of a double is compared as itself. -/
theorem roundToF64_of_double {n : ℤ} {y : F64} (h : (n : ℚ) = y.val) :
    (roundToF64 n : ℚ) = y.val := by
  rw [roundToF64_eq_rounded, h]
  exact Binary64.rounded_eq y.isDouble

/-- Numbers that denote the same are equal for Python. -/
theorem pythonJsonEq_of_value_eq {m n : Number} (h : m.value = n.value) :
    pythonJsonEq (.number m) (.number n) = true := by
  cases m with
  | int a ha =>
    rw [pythonJsonEq_of_numericValue (numericValue_int a ha)]
    cases n with
    | int b hb =>
      have hab : (a : ℚ) = b := h
      obtain rfl : a = b := by exact_mod_cast hab
      rw [numericValue_int, Option.any_some, numbersEq_refl]
    | float y =>
      rw [numericValue_float, Option.any_some, numbersEq, beq_iff_eq]
      exact roundToF64_of_double h
  | float x =>
    rw [pythonJsonEq_of_numericValue (numericValue_float x)]
    cases n with
    | int b hb =>
      rw [numericValue_int, Option.any_some, numbersEq, beq_iff_eq]
      exact roundToF64_of_double h.symm
    | float y =>
      rw [numericValue_float, Option.any_some, numbersEq, beq_iff_eq]
      exact h

/-- Arrays are equal for Python when their items are. -/
theorem pythonListEq_of_forall₂ {xs ys : List Json}
    (h : List.Forall₂ (fun x y => pythonJsonEq x y = true) xs ys) : pythonListEq xs ys = true := by
  induction h with
  | nil => rfl
  | cons hxy _ ih => rw [pythonListEq, hxy, ih, Bool.true_and]

/-- Values that a schema takes for the same are equal for Python. -/
theorem pythonJsonEq_of_schemaEq {i j : Json} (h : schemaEq i j = true) :
    pythonJsonEq i j = true := by
  induction i generalizing j with
  | null => cases j <;> simp_all [schemaEq, eqBy, pythonJsonEq]
  | bool b => cases j <;> simp_all [schemaEq, eqBy, pythonJsonEq_refl]
  | number n =>
    cases j with
    | number n' => exact pythonJsonEq_of_value_eq (of_decide_eq_true h)
    | _ => simp [schemaEq, eqBy] at h
  | string s => cases j <;> simp_all [schemaEq, eqBy, pythonJsonEq]
  | array items ih =>
    cases j with
    | array items' =>
      rw [schemaEq, eqBy, eqListBy_iff_forall₂] at h
      rw [pythonJsonEq, h.length_eq, beq_self_eq_true, Bool.true_and]
      refine pythonListEq_of_forall₂ (List.forall₂_iff_get.mpr ⟨h.length_eq, fun i hi hi' => ?_⟩)
      exact ih _ (List.get_mem ..) (h.get hi hi')
    | _ => simp [schemaEq, eqBy] at h
  | object fields ih =>
    cases j with
    | object fields' =>
      rw [schemaEq, eqBy_object_iff] at h
      rw [pythonJsonEq_object_iff, ← len_eq_and_iff_rel]
      refine ⟨h.1, fun k v hv => ?_⟩
      obtain ⟨w, hw, heq⟩ := h.2 k v hv
      exact ⟨w, hw, ih k v hv heq⟩
    | _ => simp [schemaEq, eqBy] at h

/-! ## Empty diffs -/

theorem isEmptyObject_object {m : IndexMap String Json} :
    isEmptyObject (.object m) = true ↔ ∀ k, m.get? k = none := IndexMap.isEmpty_iff

theorem diffEntry_object (doDelete : Bool) (o : IndexMap String Json) (old : Option Json) :
    diffEntry doDelete (.object o) old = none ↔
      isEmptyObject (generateDiff (old.getD (.object .empty)) (.object o) doDelete) = true := by
  unfold diffEntry isEmptyObject
  generalize generateDiff (old.getD (.object .empty)) (.object o) doDelete = d
  cases hd : d.asObject <;> simp [isObject, hd]

theorem diffEntry_leaf (doDelete : Bool) {v : Json} (hv : v.isObject = false)
    (old : Option Json) :
    diffEntry doDelete v old = none ↔ ∃ c, old = some c ∧ pythonJsonEq c v = true := by
  unfold diffEntry
  rw [if_neg (by rw [hv]; exact Bool.false_ne_true)]
  cases old with
  | none => simp
  | some c => simp

/-- A sub-diff that is not empty is stored. -/
theorem diffEntry_of_not_empty {doDelete : Bool} {o : IndexMap String Json} {old : Option Json}
    (h : isEmptyObject (generateDiff (old.getD (.object .empty)) (.object o) doDelete) = false) :
    diffEntry doDelete (.object o) old =
      some (generateDiff (old.getD (.object .empty)) (.object o) doDelete) := by
  unfold diffEntry
  unfold isEmptyObject at h
  generalize generateDiff (old.getD (.object .empty)) (.object o) doDelete = d at h
  cases hd : d.asObject <;> simp_all [isObject]

/-- A value that is stored is stored as it is. -/
theorem eq_of_diffEntry_leaf {doDelete : Bool} {v e : Json} (hv : v.isObject = false)
    {old : Option Json} (h : diffEntry doDelete v old = some e) : e = v := by
  unfold diffEntry at h
  rw [if_neg (by rw [hv]; exact Bool.false_ne_true)] at h
  split at h
  · exact (Option.some.inj h).symm
  · cases h

/-- One key of an empty diff: the key did not change. -/
theorem isEmptyObject_generateDiff (m t : IndexMap String Json) :
    isEmptyObject (generateDiff (.object m) (.object t) false) = true ↔
      ∀ k v, t.get? k = some v → diffEntry false v (m.get? k) = none := by
  obtain ⟨r, hr, hk⟩ := generateDiff_object m t false
  rw [hr, isEmptyObject_object]
  refine forall_congr' fun k => ?_
  rw [hk k]
  cases t.get? k <;> simp

theorem isEmptyObject_generateDiff_from_leaf {cur : Json} (hcur : cur.isObject = false)
    {t : IndexMap String Json}
    (h : isEmptyObject (generateDiff cur (.object t) false) = true) (k : String) :
    t.get? k = none := by
  rw [generateDiff_from_not_object hcur, isEmptyObject_object] at h
  exact h k

/-- **What an empty diff says.**  When the diff from `cur` to an object is empty,
`cur` holds, at the path of each value of that object, a value equal to it. -/
theorem lookup_of_isEmptyObject_generateDiff {cur : Json} {t : IndexMap String Json}
    (h : isEmptyObject (generateDiff cur (.object t) false) = true) {p : List String} {v : Json}
    (hp : (Json.object t).lookup p = some v) (hv : v.isObject = false) :
    ∃ c, cur.lookup p = some c ∧ pythonJsonEq c v = true := by
  induction p generalizing cur t with
  | nil =>
    rw [lookup_nil, Option.some.injEq] at hp
    subst hp
    cases hv
  | cons k p ih =>
    rw [lookup_object_cons] at hp
    obtain ⟨e, he, hp⟩ := Option.bind_eq_some_iff.mp hp
    cases cur with
    | object m =>
      have hk := (isEmptyObject_generateDiff m t).mp h k e he
      rw [lookup_object_cons]
      cases e with
      | object o =>
        rw [diffEntry_object] at hk
        obtain ⟨c, hc, hcv⟩ := ih hk hp
        cases hm : m.get? k with
        | some w => exact ⟨c, by rw [hm] at hc; exact hc, hcv⟩
        | none =>
          -- an empty object holds no value, so there is none to be held
          rw [hm, Option.getD_none] at hc
          cases p with
          | nil => rw [lookup_nil] at hp; cases hp; cases hv
          | cons k' p => rw [(misses_empty k' p).lookup] at hc; cases hc
      | _ =>
        cases p with
        | cons k' p => rw [lookup_cons_of_not_isObject rfl] at hp; cases hp
        | nil =>
          rw [lookup_nil, Option.some.injEq] at hp
          obtain ⟨c, hc, hcv⟩ := (diffEntry_leaf false rfl _).mp hk
          exact ⟨c, by rw [hc]; exact lookup_nil c, hp ▸ hcv⟩
    | _ => rw [isEmptyObject_generateDiff_from_leaf rfl h k] at he; cases he

/-- The diff is empty when every value of the new object is held and every object of
it meets an object. -/
theorem isEmptyObject_generateDiff_of_held {cur t : Json}
    (hleaf : ∀ p v, t.lookup p = some v → v.isObject = false →
      ∃ c, cur.lookup p = some c ∧ pythonJsonEq c v = true)
    (hobj : ∀ p o, t.lookup p = some (.object o) → ∃ r, cur.lookup p = some (.object r)) :
    isEmptyObject (generateDiff cur t false) = true := by
  induction t generalizing cur with
  | object t ih =>
    obtain ⟨m, hm⟩ := hobj [] t (lookup_nil _)
    rw [lookup_nil, Option.some.injEq] at hm
    subst hm
    rw [isEmptyObject_generateDiff]
    intro k v hv
    have below : ∀ p, (Json.object t).lookup (k :: p) = v.lookup p := fun p => by
      rw [lookup_object_cons, hv, Option.bind_some]
    have above : ∀ p c, (Json.object m).lookup (k :: p) = some c →
        ∃ w, m.get? k = some w ∧ w.lookup p = some c := fun p c hc => by
      rw [lookup_object_cons] at hc
      exact Option.bind_eq_some_iff.mp hc
    cases v with
    | object o =>
      obtain ⟨r, hr⟩ := hobj [k] o (by rw [below, lookup_nil])
      obtain ⟨w, hw, -⟩ := above [] _ hr
      rw [diffEntry_object, hw, Option.getD_some]
      refine ih k (.object o) hv (fun p x hx hxl => ?_) (fun p x hx => ?_)
      · obtain ⟨c, hc, hcx⟩ := hleaf (k :: p) x (by rw [below]; exact hx) hxl
        obtain ⟨w', hw', hwc⟩ := above p c hc
        cases hw.symm.trans hw'
        exact ⟨c, hwc, hcx⟩
      · obtain ⟨c, hc⟩ := hobj (k :: p) x (by rw [below]; exact hx)
        obtain ⟨w', hw', hwc⟩ := above p _ hc
        cases hw.symm.trans hw'
        exact ⟨c, hwc⟩
    | _ =>
      obtain ⟨c, hc, hcv⟩ := hleaf [k] _ (by rw [below, lookup_nil]) rfl
      obtain ⟨w, hw, hwc⟩ := above [] c hc
      rw [lookup_nil, Option.some.injEq] at hwc
      exact (diffEntry_leaf false rfl _).mpr ⟨w, hw, hwc ▸ hcv⟩
  | _ => rw [generateDiff_of_not_object rfl]; rfl

end Doover
