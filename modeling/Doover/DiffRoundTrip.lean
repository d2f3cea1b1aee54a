import Doover.DiffEquality
import Doover.KeyPath

/-! # Applying a generated diff

`applyDiff old (generateDiff old new true) true` is meant to give `new` back.  Three rules
stand in the way of it.  A `null` of `new` is stored in the diff, where it means a
deletion; an empty object of `new` leaves an empty sub-diff, which is dropped; and a value
that Python takes for the old one is not stored at all, so the old one stays.

The last costs no more than Python's equality.  Without the first two, by induction on
`new`, the diff gives back each key: what it stores for a key is applied to the old value
of that key, or to an empty object where the old value is missing
(`generated_diff_gives_new_back`).
-/

namespace Doover
open Json

/-! ## The pieces of the diff -/

/-- An empty diff changes nothing. -/
theorem applyDiff_of_isEmpty {d : IndexMap String Json} (h : d.isEmpty = true)
    (m : IndexMap String Json) (doDelete : Bool) :
    applyDiff (.object m) (.object d) doDelete = .object m := by
  obtain ⟨ks, nd, vs⟩ := d
  obtain rfl : ks = [] := List.isEmpty_iff.mp h
  rfl

theorem applyEntry_leaf {v : Json} (hobj : v.isObject = false) (hnull : v ≠ .null)
    (doDelete : Bool) (existing : Option Json) : applyEntry doDelete v existing = some v := by
  cases v with
  | object o => cases hobj
  | null => exact absurd rfl hnull
  | _ => rfl

/-! ## The round trip -/

/-- What stands in the way of the round trip is absent: no key of `new` is `null`, and an
empty object of `new` meets an object of `old`. -/
structure Recoverable (old new : Json) : Prop where
  null : ∀ p, new.lookup p ≠ some .null
  empty : ∀ p o, p ≠ [] → new.lookup p = some (.object o) → o.isEmpty = true →
    ∃ m, old.lookup p = some (.object m)

/-- A part of `new` is recoverable from the part of `old` at its key. -/
theorem Recoverable.get? {m n : IndexMap String Json} (h : Recoverable (.object m) (.object n))
    {k : String} {o : IndexMap String Json} (hk : n.get? k = some (.object o)) :
    Recoverable ((m.get? k).getD (.object .empty)) (.object o) := by
  have hbelow : ∀ p, (Json.object n).lookup (k :: p) = (Json.object o).lookup p := by
    intro p
    rw [lookup_object_cons, hk, Option.bind_some]
  constructor
  · intro p hp
    exact h.null (k :: p) ((hbelow p).trans hp)
  · intro p e hp hlookup hempty
    obtain ⟨r, hr⟩ := h.empty (k :: p) e (List.cons_ne_nil k p) ((hbelow p).trans hlookup) hempty
    rw [lookup_object_cons] at hr
    obtain ⟨w, hw, hwr⟩ := Option.bind_eq_some_iff.mp hr
    rw [hw, Option.getD_some]
    exact ⟨r, hwr⟩

/-- One key of the round trip: what is stored for it, applied to the old value, gives the
new one back. -/
theorem rel_applyEntry_diffEntry {m n : IndexMap String Json}
    (h : Recoverable (.object m) (.object n)) {k : String} {v : Json} (hk : n.get? k = some v)
    (ih : ∀ o w, v = .object o → Recoverable (.object w) (.object o) →
      pythonJsonEq (applyDiff (.object w) (generateDiff (.object w) (.object o) true) true)
        (.object o) = true) :
    Option.Rel (fun r v => pythonJsonEq r v = true)
      (match diffEntry true v (m.get? k) with
        | some e => applyEntry true e (m.get? k)
        | none => m.get? k) (some v) := by
  have hlookup : (Json.object n).lookup [k] = some v := (lookup_singleton ..).trans hk
  by_cases hv : v.isObject = true
  · obtain ⟨o, rfl⟩ := exists_of_isObject hv
    have hrec := h.get? hk
    -- an empty object of the new value meets an object of the old one
    have hfull : (∀ w, m.get? k ≠ some (.object w)) → o.isEmpty = false := by
      intro hno
      by_contra hempty
      rw [Bool.not_eq_false] at hempty
      obtain ⟨w, hw⟩ := h.empty [k] o (List.cons_ne_nil k []) hlookup hempty
      rw [lookup_singleton] at hw
      exact hno w hw
    -- the diff of two objects, empty or not
    have hobj : ∀ w : IndexMap String Json, (m.get? k).getD (.object .empty) = .object w →
        (isEmptyObject (generateDiff (.object w) (.object o) true) = true →
          pythonJsonEq (.object w) (.object o) = true) ∧
        pythonJsonEq (applyDiff (.object w) (generateDiff (.object w) (.object o) true) true)
          (.object o) = true := by
      intro w hw
      have hback := ih o w rfl (hw ▸ hrec)
      refine ⟨fun hempty => ?_, hback⟩
      obtain ⟨d, hd, -⟩ := generateDiff_object w o true
      rw [hd] at hempty hback
      rw [applyDiff_of_isEmpty (isEmptyObject_object.mp hempty |> IndexMap.isEmpty_iff.mpr)] at hback
      exact hback
    cases hm : m.get? k with
    | none =>
      rw [hm] at hobj
      obtain ⟨hsame, hback⟩ := hobj .empty rfl
      have hne : isEmptyObject (generateDiff (.object .empty) (.object o) true) = false := by
        by_contra hempty
        rw [Bool.not_eq_false] at hempty
        have hnone := pythonJsonEq_object_iff.mp (hsame hempty)
        have hoempty : o.isEmpty = true := by
          rw [IndexMap.isEmpty_iff]
          intro j
          have hj := hnone j
          rw [IndexMap.get?_empty] at hj
          exact rel_none_left.mp hj
        rw [hfull fun w hw => by rw [hm] at hw; cases hw] at hoempty
        cases hoempty
      have hentry : diffEntry true (.object o) none =
          some (generateDiff (.object .empty) (.object o) true) := diffEntry_of_not_empty hne
      rw [hentry]
      obtain ⟨d, hd, -⟩ := generateDiff_object .empty o true
      rw [hd]
      exact .some (hd ▸ hback)
    | some c =>
      cases c with
      | object w =>
        rw [hm] at hobj
        obtain ⟨hsame, hback⟩ := hobj w rfl
        by_cases hempty : isEmptyObject (generateDiff (.object w) (.object o) true) = true
        · rw [(diffEntry_object true o (some (.object w))).mpr hempty]
          exact .some (hsame hempty)
        · rw [Bool.not_eq_true] at hempty
          have hentry : diffEntry true (.object o) (some (.object w)) =
              some (generateDiff (.object w) (.object o) true) := diffEntry_of_not_empty hempty
          rw [hentry]
          obtain ⟨d, hd, -⟩ := generateDiff_object w o true
          rw [hd]
          exact .some (hd ▸ hback)
      | _ =>
        -- the object replaces the old value as it is
        have hne : isEmptyObject (.object o) = false :=
          hfull fun w hw => by rw [hm] at hw; cases hw
        rw [diffEntry_of_not_empty (by rw [Option.getD_some, generateDiff_from_not_object rfl]; exact hne),
          Option.getD_some, generateDiff_from_not_object rfl]
        exact .some (pythonJsonEq_refl _)
  · rw [Bool.not_eq_true] at hv
    have hnull : v ≠ .null := by
      rintro rfl
      exact h.null [k] hlookup
    cases hd : diffEntry true v (m.get? k) with
    | none =>
      obtain ⟨c, hc, heq⟩ := (diffEntry_leaf true hv _).mp hd
      rw [hc]
      exact .some heq
    | some e =>
      obtain rfl := eq_of_diffEntry_leaf hv hd
      simp only [applyEntry_leaf hv hnull]
      exact .some (pythonJsonEq_refl e)

/-- **The round trip.**  A diff generated with deletions and applied with deletions gives
the new object back, up to Python's equality. -/
theorem generated_diff_gives_new_back {old new : IndexMap String Json}
    (h : Recoverable (.object old) (.object new)) :
    pythonJsonEq
      (applyDiff (.object old) (generateDiff (.object old) (.object new) true) true)
      (.object new) = true := by
  have hall : ∀ (j : Json) n, j = .object n → ∀ m : IndexMap String Json,
      Recoverable (.object m) (.object n) →
      pythonJsonEq (applyDiff (.object m) (generateDiff (.object m) (.object n) true) true)
        (.object n) = true := by
    intro j
    induction j with
    | object n ih =>
      rintro _ ⟨rfl⟩ m h
      obtain ⟨d, hd, hdk⟩ := generateDiff_object m n true
      obtain ⟨r, hr, hrk⟩ := applyDiff_object m d true
      rw [hd, hr, pythonJsonEq_object_iff]
      intro k
      rw [hrk k, hdk k]
      cases hn : n.get? k with
      | none =>
        cases hm : m.get? k with
        | none => exact .none
        | some c => exact .none
      | some v =>
        exact rel_applyEntry_diffEntry h hn fun o w hv hrec => ih k v hn o hv w hrec
    | _ =>
      intro n hn
      cases hn
  exact hall _ new rfl old h

/-- The object a write of one tag builds is recoverable from anything. -/
theorem recoverable_construct {p : List String} {v : Json} (hv : v.isObject = false)
    (hnull : v ≠ .null) (old : Json) : Recoverable old (KeyPath.construct ⟨p⟩ v) where
  null q hq := hnull (KeyPath.eq_of_lookup_construct hv rfl hq).2.symm
  empty q o _ ho hempty := by
    -- the tag's value lies below, so the object is not empty
    obtain ⟨s, rfl⟩ := KeyPath.prefix_of_lookup_construct hv ho
    have hleaf := KeyPath.lookup_construct (q ++ s) v
    rw [lookup_append, ho, Option.bind_some] at hleaf
    cases s with
    | nil =>
      rw [lookup_nil, Option.some.injEq] at hleaf
      rw [← hleaf] at hv
      cases hv
    | cons k s =>
      rw [lookup_object_cons, IndexMap.isEmpty_iff.mp hempty k] at hleaf
      cases hleaf

theorem generated_diff_gives_new_back_of_tag :
    pythonJsonEq
      (applyDiff (.object (.ofList [("app", .string "x"), ("old", .null)]))
        (generateDiff (.object (.ofList [("app", .string "x"), ("old", .null)]))
          (.object (IndexMap.empty.insert "app" (.object (IndexMap.empty.insert "on" (.bool true)))))
          true) true)
      (.object (IndexMap.empty.insert "app" (.object (IndexMap.empty.insert "on" (.bool true))))) =
      true :=
  generated_diff_gives_new_back
    (recoverable_construct (p := ["app", "on"]) (v := .bool true) rfl Json.noConfusion _)

end Doover
