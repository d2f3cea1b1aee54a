import Doover.Diff

/-! # Paths into a value, and what a diff does to them

A path is a list of keys and `lookup` follows it.  Everything a reader or the
agent sees of a tag is a lookup, so the laws of the diff engine are stated as what
a lookup answers after a diff was applied.

A diff does one of three things to a path: it ends there with a value or an object
(`lookup`), it leaves the path at a key it does not have (`Misses`), or it holds a
value at a proper prefix (`Blocks`).  The first two decide the lookup afterwards:

* `lookup_applyDiff_leaf`: a value in the diff is what the path holds afterwards;
* `lookup_applyDiff_of_misses`: a diff that misses the path leaves it as it was.
-/

namespace Doover
namespace Json

/-- Follow a path of object keys. -/
def lookup : Json → List String → Option Json
  | j, [] => some j
  | j, k :: p =>
    match j.get? k with
    | some v => lookup v p
    | none => none

/-- The value leaves the path at a key that one of its objects does not have. -/
def Misses : Json → List String → Prop
  | .object m, k :: p =>
    match m.get? k with
    | some v => Misses v p
    | none => True
  | _, _ => False

/-- The value holds something other than an object at a proper prefix of the path. -/
def Blocks : Json → List String → Prop
  | .object m, k :: p =>
    match m.get? k with
    | some v => Blocks v p
    | none => False
  | _, _ :: _ => True
  | _, [] => False

@[simp] theorem lookup_nil (j : Json) : j.lookup [] = some j := by
  cases j <;> rfl

theorem lookup_cons (j : Json) (k : String) (p : List String) :
    j.lookup (k :: p) = (j.get? k).bind fun v => v.lookup p := by
  rw [lookup]
  cases j.get? k <;> rfl

theorem lookup_singleton (j : Json) (k : String) : j.lookup [k] = j.get? k := by
  rw [lookup_cons]
  cases j.get? k with
  | none => rfl
  | some v => exact lookup_nil v

theorem lookup_object_cons (m : IndexMap String Json) (k : String) (p : List String) :
    (Json.object m).lookup (k :: p) = (m.get? k).bind fun v => v.lookup p :=
  lookup_cons ..

theorem lookup_cons_of_not_isObject {j : Json} (h : j.isObject = false) (k : String)
    (p : List String) : j.lookup (k :: p) = none := by
  rw [lookup_cons, get?_of_not_isObject h, Option.bind_none]

theorem isObject_of_lookup_cons {j v : Json} {k : String} {p : List String}
    (h : j.lookup (k :: p) = some v) : j.isObject = true := by
  by_contra hj
  rw [lookup_cons_of_not_isObject ((Bool.not_eq_true _).mp hj)] at h
  cases h

/-- Objects are found in objects only. -/
theorem isObject_of_lookup_object {j : Json} {p : List String} {o : IndexMap String Json}
    (h : j.lookup p = some (.object o)) : j.isObject = true := by
  cases p with
  | nil =>
    rw [lookup_nil, Option.some.injEq] at h
    rw [h]
    rfl
  | cons k p => exact isObject_of_lookup_cons h

theorem lookup_append (j : Json) (p q : List String) :
    j.lookup (p ++ q) = (j.lookup p).bind fun v => v.lookup q := by
  induction p generalizing j with
  | nil => rw [List.nil_append, lookup_nil, Option.bind_some]
  | cons k p ih =>
    rw [List.cons_append, lookup_cons, lookup_cons, Option.bind_assoc]
    exact congrArg _ (funext fun v => ih v)

/-! ## The three ways a value meets a path -/

theorem misses_object_cons (m : IndexMap String Json) (k : String) (p : List String) :
    (Json.object m).Misses (k :: p) ↔ ∀ v, m.get? k = some v → v.Misses p := by
  rw [Misses]
  cases m.get? k <;> simp

theorem not_misses_nil (j : Json) : ¬ j.Misses [] := by
  cases j <;> exact id

theorem Misses.isObject {j : Json} {p : List String} (h : j.Misses p) : j.isObject = true := by
  cases j with
  | object m => rfl
  | _ => cases p <;> exact False.elim h

theorem Misses.lookup {j : Json} {p : List String} (h : j.Misses p) : j.lookup p = none := by
  induction p generalizing j with
  | nil => exact absurd h (not_misses_nil j)
  | cons k p ih =>
    obtain ⟨m, rfl⟩ := exists_of_isObject h.isObject
    rw [misses_object_cons] at h
    rw [lookup_object_cons]
    cases hm : m.get? k with
    | none => rfl
    | some v => exact ih (h v hm)

theorem misses_empty (k : String) (p : List String) :
    (Json.object .empty).Misses (k :: p) := by
  rw [misses_object_cons]
  intro v hv
  rw [IndexMap.get?_empty] at hv
  cases hv

theorem lookup_of_blocks {j : Json} {p : List String} (h : j.Blocks p) : j.lookup p = none := by
  induction p generalizing j with
  | nil => cases j <;> exact False.elim h
  | cons k p ih =>
    cases j with
    | object m =>
      rw [Blocks] at h
      rw [lookup_object_cons]
      cases hm : m.get? k with
      | none => rfl
      | some v =>
        rw [hm] at h
        exact ih h
    | _ => exact lookup_cons_of_not_isObject rfl k p

/-- A value ends at the path, misses it or blocks it. -/
theorem lookup_or_misses_or_blocks (j : Json) (p : List String) :
    (∃ v, j.lookup p = some v) ∨ j.Misses p ∨ j.Blocks p := by
  induction p generalizing j with
  | nil => exact Or.inl ⟨j, lookup_nil j⟩
  | cons k p ih =>
    cases j with
    | object m =>
      rw [lookup_object_cons, Misses, Blocks]
      cases hm : m.get? k with
      | none => exact Or.inr (Or.inl trivial)
      | some v => exact ih v
    | _ => exact Or.inr (Or.inr trivial)

/-! ## Applying a diff -/

theorem isObject_applyDiff {diff : Json} (h : diff.isObject = true) (data : Json)
    (doDelete : Bool) : (applyDiff data diff doDelete).isObject = true := by
  obtain ⟨d, rfl⟩ := exists_of_isObject h
  cases data with
  | object m =>
    obtain ⟨r, hr, -⟩ := applyDiff_object m d doDelete
    rw [hr]
    rfl
  | _ => rfl

/-- What `applyDiff` answers for one key, whatever the data is. -/
theorem get?_applyDiff_of_some {d : IndexMap String Json} {k : String} {v : Json}
    (h : d.get? k = some v) (data : Json) (doDelete : Bool) :
    (applyDiff data (.object d) doDelete).get? k =
      if data.isObject then applyEntry doDelete v (data.get? k) else some v := by
  cases data with
  | object m =>
    obtain ⟨r, hr, hk⟩ := applyDiff_object m d doDelete
    rw [hr, get?_object, hk k, h]
    rfl
  | _ => exact h

theorem get?_applyDiff_of_none {d : IndexMap String Json} {k : String}
    (h : d.get? k = none) (data : Json) (doDelete : Bool) :
    (applyDiff data (.object d) doDelete).get? k = data.get? k := by
  cases data with
  | object m =>
    obtain ⟨r, hr, hk⟩ := applyDiff_object m d doDelete
    rw [hr, get?_object, hk k, h]
    rfl
  | _ => exact h

/-- **Frame.**  A diff that misses a path leaves it as it was. -/
theorem lookup_applyDiff_of_misses {diff : Json} {p : List String} (h : diff.Misses p)
    (data : Json) (doDelete : Bool) :
    (applyDiff data diff doDelete).lookup p = data.lookup p := by
  induction p generalizing diff data with
  | nil => exact absurd h (not_misses_nil diff)
  | cons k p ih =>
    obtain ⟨d, rfl⟩ := exists_of_isObject h.isObject
    rw [misses_object_cons] at h
    rw [lookup_cons, lookup_cons]
    cases hd : d.get? k with
    | none => rw [get?_applyDiff_of_none hd]
    | some v =>
      have hv := h v hd
      obtain ⟨o, rfl⟩ := exists_of_isObject hv.isObject
      rw [get?_applyDiff_of_some hd]
      split
      · rw [applyEntry, Option.bind_some, ih hv]
        cases hk : data.get? k with
        | some e => rfl
        | none =>
          rw [Option.getD_none, Option.bind_none]
          -- the fresh object does not have the path either
          cases p with
          | nil => exact absurd hv (not_misses_nil _)
          | cons k' p => exact (misses_empty k' p).lookup
      · rename_i hobj
        rw [Option.bind_some, hv.lookup, get?_of_not_isObject (Bool.not_eq_true _ ▸ hobj),
          Option.bind_none]

/-- **Hit.**  A value of the diff, other than an object or a deletion, is what its
path holds afterwards. -/
theorem lookup_applyDiff_leaf {diff v : Json} {p : List String} (h : diff.lookup p = some v)
    (hv : v.isObject = false) {doDelete : Bool} (hnull : doDelete = false ∨ v ≠ .null)
    (data : Json) : (applyDiff data diff doDelete).lookup p = some v := by
  induction p generalizing diff data with
  | nil =>
    rw [lookup_nil, Option.some.injEq] at h
    subst h
    rw [applyDiff_of_not_object hv, lookup_nil]
  | cons k p ih =>
    cases diff with
    | object d =>
      rw [lookup_object_cons] at h
      cases hd : d.get? k with
      | none => rw [hd] at h; cases h
      | some e =>
        rw [hd, Option.bind_some] at h
        rw [lookup_cons, get?_applyDiff_of_some hd]
        split
        · cases e with
          | object o => exact ih h _
          | _ =>
            cases p with
            | nil =>
              rw [lookup_nil, Option.some.injEq] at h
              subst h
              rcases hnull with rfl | hne <;> simp_all [applyEntry]
            | cons k' p => rw [lookup_cons_of_not_isObject rfl] at h; cases h
        · exact h
    | _ => rw [lookup_cons_of_not_isObject rfl] at h; cases h

/-- A deletion leaves nothing at its path, or the `null` of a diff taken over whole. -/
theorem lookup_applyDiff_null {diff : Json} {p : List String} (h : diff.lookup p = some .null)
    (data : Json) (doDelete : Bool) {v : Json}
    (hv : (applyDiff data diff doDelete).lookup p = some v) : v = .null := by
  induction p generalizing diff data with
  | nil =>
    rw [lookup_nil, Option.some.injEq] at h
    subst h
    rw [applyDiff_of_not_object rfl, lookup_nil, Option.some.injEq] at hv
    exact hv.symm
  | cons k p ih =>
    cases diff with
    | object d =>
      rw [lookup_object_cons] at h
      obtain ⟨e, hd, h⟩ := Option.bind_eq_some_iff.mp h
      rw [lookup_cons, get?_applyDiff_of_some hd] at hv
      split at hv
      · cases e with
        | object o => exact ih h _ hv
        | _ =>
          cases p with
          | nil =>
            rw [lookup_nil, Option.some.injEq] at h
            cases h <;> cases doDelete <;> simp_all [applyEntry]
          | cons k' p => rw [lookup_cons_of_not_isObject rfl] at h; cases h
      · rw [Option.bind_some, h, Option.some.injEq] at hv
        exact hv.symm
    | _ => rw [lookup_cons_of_not_isObject rfl] at h; cases h

/-- An object of the diff leaves an object at its path. -/
theorem lookup_applyDiff_object {diff : Json} {p : List String} {o : IndexMap String Json}
    (h : diff.lookup p = some (.object o)) (data : Json) (doDelete : Bool) :
    ∃ r, (applyDiff data diff doDelete).lookup p = some (.object r) := by
  induction p generalizing diff data with
  | nil =>
    rw [lookup_nil, Option.some.injEq] at h
    subst h
    have hobj : (Json.object o).isObject = true := rfl
    obtain ⟨r, hr⟩ := exists_of_isObject (isObject_applyDiff hobj data doDelete)
    exact ⟨r, by rw [hr, lookup_nil]⟩
  | cons k p ih =>
    cases diff with
    | object d =>
      rw [lookup_object_cons] at h
      cases hd : d.get? k with
      | none => rw [hd] at h; cases h
      | some e =>
        rw [hd, Option.bind_some] at h
        rw [lookup_cons, get?_applyDiff_of_some hd]
        split
        · cases e with
          | object o' => exact ih h _
          | _ =>
            cases p with
            | nil => rw [lookup_nil] at h; cases h
            | cons k' p => rw [lookup_cons_of_not_isObject rfl] at h; cases h
        · exact ⟨o, h⟩
    | _ => rw [lookup_cons_of_not_isObject rfl] at h; cases h

/-- A value of the diff at a proper prefix of the path cuts the path off. -/
theorem lookup_applyDiff_of_blocks {diff : Json} {p : List String} (h : diff.Blocks p)
    (data : Json) (doDelete : Bool) : (applyDiff data diff doDelete).lookup p = none := by
  induction p generalizing diff data with
  | nil => cases diff <;> exact False.elim h
  | cons k p ih =>
    cases diff with
    | object d =>
      rw [Blocks] at h
      cases hd : d.get? k with
      | none => rw [hd] at h; exact False.elim h
      | some v =>
        rw [hd] at h
        rw [lookup_cons, get?_applyDiff_of_some hd]
        split
        · cases v with
          | object o => exact ih h _
          | null => cases doDelete <;> simp [applyEntry, lookup_of_blocks h]
          | _ => exact lookup_of_blocks h
        · exact lookup_of_blocks h
    | _ => rw [applyDiff_of_not_object rfl, lookup_cons_of_not_isObject rfl]

/-- Where the diff ends, what it has there is applied to what the data has there. -/
theorem lookup_applyDiff_some {diff y : Json} {p : List String} (h : diff.lookup p = some y)
    (data : Json) : (applyDiff data diff false).lookup p = applyEntry false y (data.lookup p) := by
  induction p generalizing diff data with
  | nil =>
    rw [lookup_nil, Option.some.injEq] at h
    rw [lookup_nil, lookup_nil, applyEntry_some, h]
  | cons k p ih =>
    cases diff with
    | object d =>
      rw [lookup_object_cons] at h
      obtain ⟨v, hv, hvy⟩ := Option.bind_eq_some_iff.mp h
      rw [lookup_cons, lookup_cons, get?_applyDiff_of_some hv]
      cases data with
      | object m =>
        rw [if_pos (show (object m).isObject = true from rfl), get?_object]
        cases m.get? k with
        | none => rw [applyEntry_none, Option.bind_some, hvy, Option.bind_none, applyEntry_none]
        | some w => rw [applyEntry_some, Option.bind_some, Option.bind_some, ih hvy]
      | _ => exact hvy.trans (applyEntry_none y).symm
    | _ =>
      rw [lookup_cons_of_not_isObject rfl] at h
      cases h

/-- What misses a path still misses it after a diff that misses it. -/
theorem misses_applyDiff {data diff : Json} {p : List String} (hdata : data.Misses p)
    (hdiff : diff.Misses p) (doDelete : Bool) : (applyDiff data diff doDelete).Misses p := by
  induction p generalizing diff data with
  | nil => exact absurd hdata (not_misses_nil data)
  | cons k p ih =>
    obtain ⟨d, rfl⟩ := exists_of_isObject hdiff.isObject
    obtain ⟨m, rfl⟩ := exists_of_isObject hdata.isObject
    obtain ⟨r, hr, hk⟩ := applyDiff_object m d doDelete
    rw [misses_object_cons] at hdata hdiff
    rw [hr, misses_object_cons, hk k]
    intro v hv
    cases hd : d.get? k with
    | none =>
      rw [hd] at hv
      exact hdata v hv
    | some e =>
      obtain ⟨o, rfl⟩ := exists_of_isObject (hdiff e hd).isObject
      rw [hd] at hv
      cases hv
      cases hm : m.get? k with
      | some e' => exact ih (hdata e' hm) (hdiff _ hd)
      | none =>
        cases p with
        | nil => exact absurd (hdiff _ hd) (not_misses_nil _)
        | cons k' p => exact ih (misses_empty k' p) (hdiff _ hd)

end Json
end Doover
