import Doover.TagWrites

/-! # Lookups in a generated diff

A subscriber of a path is notified when the diff between two aggregates has something at
the path, and it is given what the diff has there.  So this module says what a diff,
generated without deletions, answers at a path, by what the two values answer:

* below a value of the old one, what the new one has (`lookup_generateDiff_of_blocks`);
* anywhere else, the entry the diff makes of the two values at the path
  (`lookup_generateDiff`), which is nothing when the new value has nothing there.

The entry of an object is part of that object, and the whole of it exactly when nothing of
it was there before (`diffEntry_eq_self_iff`).
-/

namespace Doover
open Json

/-! ## Below a key -/

/-- Nothing is below the object without keys. -/
theorem lookup_of_isEmptyObject {d : Json} (h : isEmptyObject d = true) {p : List String}
    (hp : p ≠ []) : d.lookup p = none := by
  cases p with
  | nil => exact absurd rfl hp
  | cons k p =>
    cases d with
    | object m => rw [lookup_object_cons, isEmptyObject_object.mp h k, Option.bind_none]
    | _ => exact lookup_cons_of_not_isObject rfl k p

/-- The object without keys holds no value. -/
theorem holds_empty {v : Json} (hv : v.isObject = false) (p : List String) :
    (Json.object .empty).holds p v = false := by
  cases p with
  | nil =>
    rw [holds, lookup_nil, Option.any_some]
    exact pythonJsonEq_object_leaf hv .empty
  | cons k p => rw [holds, (misses_empty k p).lookup, Option.any_none]

theorem not_blocks_empty (p : List String) : ¬ (Json.object .empty).Blocks p := by
  intro h
  cases p with
  | nil => exact h
  | cons k p =>
    rw [Blocks, IndexMap.get?_empty] at h
    exact h

theorem get?_generateDiff (m n : IndexMap String Json) (k : String) :
    (generateDiff (.object m) (.object n) false).get? k =
      (n.get? k).bind fun v => diffEntry false v (m.get? k) := by
  obtain ⟨r, hr, hrk⟩ := generateDiff_object m n false
  rw [hr, get?_object, hrk k]
  cases n.get? k with
  | none => exact if_neg Bool.false_ne_true
  | some v => rfl

/-- A sub-diff that is dropped has nothing in it. -/
theorem lookup_diffEntry (v : Json) (old : Option Json) {p : List String} (hp : p ≠ []) :
    ((diffEntry false v old).bind fun e => e.lookup p) =
      (generateDiff (old.getD (.object .empty)) v false).lookup p := by
  by_cases hv : v.isObject = true
  · obtain ⟨o, rfl⟩ := exists_of_isObject hv
    by_cases hempty :
        isEmptyObject (generateDiff (old.getD (.object .empty)) (.object o) false) = true
    · rw [(diffEntry_object false o old).mpr hempty, Option.bind_none,
        lookup_of_isEmptyObject hempty hp]
    · rw [Bool.not_eq_true] at hempty
      rw [diffEntry_of_not_empty hempty, Option.bind_some]
  · rw [Bool.not_eq_true] at hv
    have hnone : v.lookup p = none := by
      cases p with
      | nil => exact absurd rfl hp
      | cons k p => exact lookup_cons_of_not_isObject hv k p
    rw [generateDiff_of_not_object hv, hnone, Option.bind_eq_none_iff]
    intro e he
    rw [eq_of_diffEntry_leaf hv he, hnone]

/-! ## The two laws -/

/-- Below a value of the old tree the diff has what the new tree has. -/
theorem lookup_generateDiff_of_blocks {old : Json} {p : List String} (h : old.Blocks p)
    (new : Json) : (generateDiff old new false).lookup p = new.lookup p := by
  induction p generalizing old new with
  | nil => cases old <;> exact False.elim h
  | cons k p ih =>
    cases old with
    | object m =>
      cases new with
      | object n =>
        rw [Blocks] at h
        cases hm : m.get? k with
        | none =>
          rw [hm] at h
          exact False.elim h
        | some w =>
          rw [hm] at h
          have hp : p ≠ [] := by
            rintro rfl
            cases w <;> exact h
          rw [lookup_cons, get?_generateDiff, hm, lookup_object_cons, Option.bind_assoc]
          refine congrArg _ (funext fun v => ?_)
          rw [lookup_diffEntry v (some w) hp, Option.getD_some, ih h]
      | _ => rw [generateDiff_of_not_object rfl]
    | _ => rw [generateDiff_from_not_object rfl]

/-- **What a diff has at a path.**  Unless a value of the old tree is above it, the entry
that the diff makes of the two values there. -/
theorem lookup_generateDiff {old : Json} {p : List String} (h : ¬ old.Blocks p) (hp : p ≠ [])
    (new : Json) : (generateDiff old new false).lookup p =
      (new.lookup p).bind fun v => diffEntry false v (old.lookup p) := by
  induction p generalizing old new with
  | nil => exact absurd rfl hp
  | cons k p ih =>
    cases old with
    | object m =>
      cases new with
      | object n =>
        rw [lookup_cons, get?_generateDiff, lookup_object_cons, lookup_object_cons,
          Option.bind_assoc, Option.bind_assoc]
        refine congrArg _ (funext fun v => ?_)
        cases p with
        | nil => simp only [lookup_nil, Option.bind_fun_some, Option.bind_some]
        | cons k' p =>
          have hbelow : ¬ ((m.get? k).getD (.object .empty)).Blocks (k' :: p) := by
            rw [Blocks] at h
            cases hm : m.get? k with
            | none => exact not_blocks_empty _
            | some w =>
              rw [hm] at h
              exact h
          have hold : ((m.get? k).getD (.object .empty)).lookup (k' :: p) =
              (m.get? k).bind fun w => w.lookup (k' :: p) := by
            cases m.get? k with
            | none => exact (misses_empty k' p).lookup
            | some w => rfl
          rw [lookup_diffEntry v (m.get? k) (List.cons_ne_nil k' p),
            ih hbelow (List.cons_ne_nil k' p), hold]
      | _ =>
        rw [generateDiff_of_not_object rfl, lookup_cons_of_not_isObject rfl, Option.bind_none]
    | _ => exact absurd trivial h

/-! ## The entry of an unchanged value -/

/-- Equal values are equal at every path. -/
theorem rel_lookup_of_pythonJsonEq {a b : Json} (h : pythonJsonEq a b = true) (p : List String) :
    Option.Rel (fun v w => pythonJsonEq v w = true) (a.lookup p) (b.lookup p) := by
  induction p generalizing a b with
  | nil =>
    rw [lookup_nil, lookup_nil]
    exact .some h
  | cons k p ih =>
    cases a with
    | object m =>
      obtain ⟨n, rfl⟩ := exists_of_isObject (isObject_of_pythonJsonEq h).symm
      have hk := pythonJsonEq_object_iff.mp h k
      rw [lookup_object_cons, lookup_object_cons]
      generalize m.get? k = x at hk
      generalize n.get? k = y at hk
      cases hk with
      | some hvw => exact ih hvw
      | none => exact .none
    | _ =>
      rw [lookup_cons_of_not_isObject rfl,
        lookup_cons_of_not_isObject (isObject_of_pythonJsonEq h).symm]
      exact .none

/-- What Python takes for the old value is not stored. -/
theorem diffEntry_of_pythonJsonEq {c v : Json} (h : pythonJsonEq c v = true) :
    diffEntry false v (some c) = none := by
  by_cases hv : v.isObject = true
  · obtain ⟨o, rfl⟩ := exists_of_isObject hv
    rw [diffEntry_object, Option.getD_some]
    -- each value and each object of the new one meets its equal
    refine isEmptyObject_generateDiff_of_held (fun p x hx _ => ?_) fun p e he => ?_
    · have hrel := rel_lookup_of_pythonJsonEq h p
      rw [hx] at hrel
      obtain ⟨y, hy, hyx⟩ := rel_some_right.mp hrel
      exact ⟨y, hy, hyx⟩
    · have hrel := rel_lookup_of_pythonJsonEq h p
      rw [he] at hrel
      obtain ⟨y, hy, hye⟩ := rel_some_right.mp hrel
      obtain ⟨r, rfl⟩ := exists_of_isObject (isObject_of_pythonJsonEq hye)
      exact ⟨r, hy⟩
  · rw [Bool.not_eq_true] at hv
    exact (diffEntry_leaf false hv _).mpr ⟨c, rfl, h⟩

/-! ## The entry of a new value -/

/-- Nothing of `new` is in `cur`: each of its values differs from what is held at its
path, and its empty objects are below values. -/
structure Fresh (cur new : Json) : Prop where
  values : ∀ p v, new.valueAt p = some v → cur.holds p v = false
  empties : ∀ p o, new.lookup p = some (.object o) → o.isEmpty = true → cur.Blocks p

/-- A value is fresh when it differs from what is there. -/
theorem fresh_leaf_iff {cur v : Json} (hv : v.isObject = false) :
    Fresh cur v ↔ pythonJsonEq cur v = false := by
  have hroot : cur.holds [] v = pythonJsonEq cur v := by
    rw [holds, lookup_nil, Option.any_some]
  constructor
  · intro h
    rw [← hroot]
    exact h.values [] v ((valueAt_leaf hv).mpr ⟨rfl, rfl⟩)
  · intro h
    constructor
    · intro p x hx
      obtain ⟨rfl, rfl⟩ := (valueAt_leaf hv).mp hx
      exact hroot.trans h
    · intro p o ho
      rw [isObject_of_lookup_object ho] at hv
      cases hv

/-- Where a value is, an object is fresh when it has something in it. -/
theorem fresh_over_value_iff {cur : Json} (hcur : cur.isObject = false)
    (o : IndexMap String Json) : Fresh cur (.object o) ↔ o.isEmpty = false := by
  constructor
  · intro h
    by_contra hempty
    rw [Bool.not_eq_false] at hempty
    have hblocks := h.empties [] o (lookup_nil _) hempty
    cases cur <;> exact hblocks
  · intro h
    constructor
    · intro p v hv
      cases p with
      | nil => exact absurd rfl (ne_nil_of_valueAt hv)
      | cons k p => rw [holds, lookup_cons_of_not_isObject hcur, Option.any_none]
    · intro p e he hempty
      cases p with
      | nil =>
        rw [lookup_nil, Option.some.injEq, Json.object.injEq] at he
        rw [he, hempty] at h
        cases h
      | cons k p =>
        cases cur with
        | object m => cases hcur
        | _ => trivial

/-- Two objects, key by key. -/
theorem fresh_object_iff (m o : IndexMap String Json) :
    Fresh (.object m) (.object o) ↔ o.isEmpty = false ∧
      ∀ k v, o.get? k = some v → Fresh ((m.get? k).getD (.object .empty)) v := by
  have hlookup : ∀ {k v}, o.get? k = some v → ∀ p, (Json.object o).lookup (k :: p) = v.lookup p := by
    intro k v hk p
    rw [lookup_object_cons, hk, Option.bind_some]
  constructor
  · intro h
    constructor
    · by_contra hempty
      rw [Bool.not_eq_false] at hempty
      exact h.empties [] o (lookup_nil _) hempty
    · intro k v hk
      constructor
      · intro p x hx
        have hheld := h.values (k :: p) x (by rw [valueAt, hlookup hk]; exact hx)
        rw [holds, lookup_object_cons] at hheld
        cases hm : m.get? k with
        | some w =>
          rw [hm, Option.bind_some] at hheld
          exact hheld
        | none => exact holds_empty (valueAt_eq_some.mp hx).2 p
      · intro p e he hempty
        have hblocks := h.empties (k :: p) e ((hlookup hk p).trans he) hempty
        rw [Blocks] at hblocks
        cases hm : m.get? k with
        | some w =>
          rw [hm] at hblocks
          exact hblocks
        | none =>
          rw [hm] at hblocks
          exact False.elim hblocks
  · rintro ⟨hfull, hbelow⟩
    constructor
    · intro p x hx
      cases p with
      | nil => exact absurd rfl (ne_nil_of_valueAt hx)
      | cons k p =>
        cases hk : o.get? k with
        | none =>
          rw [valueAt, lookup_object_cons, hk] at hx
          cases hx
        | some v =>
          rw [valueAt, hlookup hk] at hx
          have hheld := (hbelow k v hk).values p x hx
          rw [holds, lookup_object_cons]
          cases hm : m.get? k with
          | none => rfl
          | some w =>
            rw [hm] at hheld
            exact hheld
    · intro p e he hempty
      cases p with
      | nil =>
        rw [lookup_nil, Option.some.injEq, Json.object.injEq] at he
        rw [he, hempty] at hfull
        cases hfull
      | cons k p =>
        cases hk : o.get? k with
        | none =>
          rw [lookup_object_cons, hk] at he
          cases he
        | some v =>
          have hblocks := (hbelow k v hk).empties p e ((hlookup hk p).symm.trans he) hempty
          rw [Blocks]
          cases hm : m.get? k with
          | none =>
            rw [hm] at hblocks
            exact not_blocks_empty p hblocks
          | some w =>
            rw [hm] at hblocks
            exact hblocks

/-- A diff is the whole of the new object when each of its entries is the new value. -/
theorem generateDiff_eq_self_iff (m o : IndexMap String Json) :
    generateDiff (.object m) (.object o) false = .object o ↔
      ∀ k v, o.get? k = some v → diffEntry false v (m.get? k) = some v := by
  constructor
  · intro h k v hk
    have hentry := get?_generateDiff m o k
    rw [h, get?_object, hk, Option.bind_some] at hentry
    exact hentry.symm
  · intro h
    obtain ⟨r, hr, hrk⟩ := generateDiff_object m o false
    have hkeys : r.keys = o.keys := by
      obtain ⟨ok, on, ov⟩ := o
      rw [generateDiff, Json.object.injEq, if_neg Bool.false_ne_true] at hr
      rw [← hr, IndexMap.keys_foldl_insert Subtype.val]
      · exact List.attach_map_subtype_val ok
      · intro d k
        -- the entry is stored, so the loop inserts it
        have hk := h k.1 (ov k) (IndexMap.get?_of_mem k.2)
        unfold diffEntry at hk
        by_cases hobj : (ov k).isObject = true
        · simp only [if_pos hobj, Option.ite_none_right_eq_some] at hk ⊢
          exact ⟨_, if_pos hk.1⟩
        · simp only [if_neg hobj, Option.ite_none_right_eq_some] at hk ⊢
          exact ⟨_, if_pos hk.1⟩
      · exact (List.attach_map_subtype_val ok).symm ▸ on
      · exact fun k _ => List.not_mem_nil
    rw [hr]
    refine congrArg Json.object (IndexMap.ext hkeys fun k => ?_)
    rw [hrk k]
    cases hk : o.get? k with
    | none => exact if_neg Bool.false_ne_true
    | some v => exact h k v hk

/-- A value is stored when it differs from what is there. -/
theorem diffEntry_leaf_eq_self_iff {v : Json} (hv : v.isObject = false) (old : Option Json) :
    diffEntry false v old = some v ↔ pythonJsonEq (old.getD (.object .empty)) v = false := by
  rw [diffEntry, if_neg (by rw [hv]; exact Bool.false_ne_true)]
  cases old with
  | none => exact iff_of_true rfl (pythonJsonEq_object_leaf hv .empty)
  | some c => simp

/-- **When a diff has the whole of a value.**  Exactly when nothing of the value was
there. -/
theorem diffEntry_eq_self_iff (v : Json) (old : Option Json) :
    diffEntry false v old = some v ↔ Fresh (old.getD (.object .empty)) v := by
  have hobject : ∀ (o : IndexMap String Json) (old : Option Json),
      diffEntry false (.object o) old = some (.object o) ↔ o.isEmpty = false ∧
        generateDiff (old.getD (.object .empty)) (.object o) false = .object o := by
    intro o old
    by_cases hempty :
        isEmptyObject (generateDiff (old.getD (.object .empty)) (.object o) false) = true
    · rw [(diffEntry_object false o old).mpr hempty]
      refine iff_of_false (Option.some_ne_none _).symm ?_
      rintro ⟨hfull, hwhole⟩
      rw [hwhole, isEmptyObject_object, ← IndexMap.isEmpty_iff, hfull] at hempty
      cases hempty
    · rw [Bool.not_eq_true] at hempty
      rw [diffEntry_of_not_empty hempty, Option.some.injEq]
      refine ⟨fun hwhole => ⟨?_, hwhole⟩, And.right⟩
      rw [hwhole] at hempty
      exact hempty
  induction v generalizing old with
  | object o ih =>
    rw [hobject]
    cases hcur : old.getD (.object .empty) with
    | object m =>
      rw [fresh_object_iff, generateDiff_eq_self_iff]
      exact and_congr_right fun _ => forall₃_congr fun k v hk => ih k v hk (m.get? k)
    | _ => rw [fresh_over_value_iff rfl, generateDiff_from_not_object rfl, and_iff_left rfl]
  | _ => rw [fresh_leaf_iff rfl, diffEntry_leaf_eq_self_iff rfl]

end Doover
