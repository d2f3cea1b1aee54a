import Doover.TagWrites
import Doover.TagsRuntime

/-! # Writes that change nothing

`set_nested_tags` drops a write when the diff from the current values to it is empty.  The
write itself goes through `applyDiff`, another recursion over the same two trees, so being
dropped and changing nothing are two properties of a pair of trees.  Both are read off the
paths of the write:

* it changes nothing when each of its values is held and each of its objects meets an
  object (`pythonJsonEq_applyDiff_self_iff`);
* the diff is empty when each of its values is held and no object of it with something in
  it meets a value (`isEmptyObject_generateDiff_iff`).

They differ in the empty objects of the write, which leave nothing in a diff.
-/

namespace Doover
open Json

/-- Every value of the write is held. -/
def HoldsAll (cur tags : Json) : Prop := ∀ p v, tags.valueAt p = some v → cur.holds p v = true

/-- Every object of the write meets an object. -/
def MeetsObjects (cur tags : Json) : Prop :=
  ∀ p o, tags.lookup p = some (.object o) → ∃ m, cur.lookup p = some (.object m)

/-- Where the write meets a value with an object, the object is empty. -/
def MeetsValuesEmpty (cur tags : Json) : Prop :=
  ∀ p o c, tags.lookup p = some (.object o) → cur.lookup p = some c → c.isObject = false →
    o.isEmpty = true

/-- All that the write would change is that some of its empty objects are put where there is
no object. -/
def OnlyAddsEmpty (cur tags : Json) : Prop :=
  HoldsAll cur tags ∧ ¬ MeetsObjects cur tags ∧ MeetsValuesEmpty cur tags

/-! ## Below a key -/

section Below
variable {m t : IndexMap String Json} {k : String} {c v : Json}

theorem holds_object_cons (h : m.get? k = some c) (p : List String) (x : Json) :
    (Json.object m).holds (k :: p) x = c.holds p x := by
  rw [holds, holds, lookup_object_cons, h, Option.bind_some]

theorem HoldsAll.below (h : HoldsAll (.object m) (.object t)) (hm : m.get? k = some c)
    (ht : t.get? k = some v) : HoldsAll c v := by
  intro p x hx
  rw [← holds_object_cons hm]
  exact h (k :: p) x ((valueAt_object_cons ht p).trans hx)

theorem MeetsObjects.below (h : MeetsObjects (.object m) (.object t)) (hm : m.get? k = some c)
    (ht : t.get? k = some v) : MeetsObjects c v := by
  intro p o ho
  obtain ⟨r, hr⟩ := h (k :: p) o (by rw [lookup_object_cons, ht, Option.bind_some, ho])
  rw [lookup_object_cons, hm, Option.bind_some] at hr
  exact ⟨r, hr⟩

theorem MeetsValuesEmpty.below (h : MeetsValuesEmpty (.object m) (.object t))
    (hm : m.get? k = some c) (ht : t.get? k = some v) : MeetsValuesEmpty c v := by
  intro p o x ho hx
  refine h (k :: p) o x ?_ ?_
  · rw [lookup_object_cons, ht, Option.bind_some, ho]
  · rw [lookup_object_cons, hm, Option.bind_some, hx]

/-- Where a key is missing no value is held below it. -/
theorem HoldsAll.empty_of_missing (h : HoldsAll (.object m) (.object t)) (hm : m.get? k = none)
    (ht : t.get? k = some v) : HoldsAll (.object .empty) v := by
  intro p x hx
  have hheld := h (k :: p) x ((valueAt_object_cons ht p).trans hx)
  rw [holds, lookup_object_cons, hm, Option.bind_none] at hheld
  cases hheld

end Below

/-- The object without keys has nothing but itself. -/
theorem meetsValuesEmpty_empty (tags : Json) : MeetsValuesEmpty (.object .empty) tags := by
  intro p o c _ hc hobj
  cases p with
  | nil =>
    rw [lookup_nil, Option.some.injEq] at hc
    rw [← hc] at hobj
    cases hobj
  | cons k p =>
    rw [(misses_empty k p).lookup] at hc
    cases hc

theorem meetsValuesEmpty_of_meetsObjects {cur tags : Json} (h : MeetsObjects cur tags) :
    MeetsValuesEmpty cur tags := by
  intro p o c ho hc hobj
  obtain ⟨m, hm⟩ := h p o ho
  rw [hm, Option.some.injEq] at hc
  rw [← hc] at hobj
  cases hobj

/-! ## Changing nothing -/

/-- One key of a write that changes nothing. -/
theorem rel_applyEntry_self_iff (v : Json) (old : Option Json) :
    Option.Rel (fun a b => pythonJsonEq a b = true) (applyEntry false v old) old ↔
      ∃ c, old = some c ∧ pythonJsonEq (applyDiff c v false) c = true := by
  cases old with
  | none => cases v <;> simp [applyEntry]
  | some c => simp [applyEntry_some]

/-- A write changes nothing exactly when all its values are held and all its objects meet
objects. -/
theorem pythonJsonEq_applyDiff_self_iff (cur tags : Json) :
    pythonJsonEq (applyDiff cur tags false) cur = true ↔
      HoldsAll cur tags ∧ MeetsObjects cur tags := by
  induction tags generalizing cur with
  | object t ih =>
    cases cur with
    | object m =>
      obtain ⟨r, hr, hrk⟩ := applyDiff_object m t false
      have hkeys : pythonJsonEq (.object r) (.object m) = true ↔ ∀ k v, t.get? k = some v →
          ∃ c, m.get? k = some c ∧ pythonJsonEq (applyDiff c v false) c = true := by
        rw [pythonJsonEq_object_iff]
        refine forall_congr' fun k => ?_
        rw [hrk k]
        cases ht : t.get? k with
        | none =>
          refine iff_of_true ?_ fun v hv => by cases hv
          cases m.get? k with
          | none => exact .none
          | some c => exact .some (pythonJsonEq_refl c)
        | some v =>
          refine (rel_applyEntry_self_iff v (m.get? k)).trans ?_
          exact ⟨fun h v' hv' => Option.some.inj hv' ▸ h, fun h => h v rfl⟩
      rw [hr, hkeys]
      constructor
      · intro h
        refine ⟨fun p x hx => ?_, fun p o ho => ?_⟩
        · cases p with
          | nil =>
            obtain ⟨hl, hobj⟩ := valueAt_eq_some.mp hx
            rw [lookup_nil, Option.some.injEq] at hl
            rw [← hl] at hobj
            cases hobj
          | cons k p =>
            cases ht : t.get? k with
            | none =>
              rw [valueAt, lookup_object_cons, ht] at hx
              cases hx
            | some v =>
              obtain ⟨c, hc, heq⟩ := h k v ht
              rw [holds_object_cons hc]
              exact ((ih k v ht c).mp heq).1 p x ((valueAt_object_cons ht p).symm.trans hx)
        · cases p with
          | nil => exact ⟨m, lookup_nil _⟩
          | cons k p =>
            rw [lookup_object_cons] at ho
            obtain ⟨v, hv, hvo⟩ := Option.bind_eq_some_iff.mp ho
            obtain ⟨c, hc, heq⟩ := h k v hv
            obtain ⟨r, hr⟩ := ((ih k v hv c).mp heq).2 p o hvo
            exact ⟨r, by rw [lookup_object_cons, hc, Option.bind_some, hr]⟩
      · rintro ⟨hholds, hmeets⟩ k v hv
        cases hm : m.get? k with
        | some c => exact ⟨c, rfl, (ih k v hv c).mpr ⟨hholds.below hm hv, hmeets.below hm hv⟩⟩
        | none =>
          -- neither a value nor an object of the write can be met there
          by_cases hobj : v.isObject = true
          · obtain ⟨o, rfl⟩ := exists_of_isObject hobj
            obtain ⟨r, hr⟩ := hmeets [k] o ((lookup_singleton ..).trans hv)
            rw [lookup_singleton, get?_object, hm] at hr
            cases hr
          · rw [Bool.not_eq_true] at hobj
            have hheld := hholds [k] v
              (valueAt_eq_some.mpr ⟨(lookup_singleton ..).trans hv, hobj⟩)
            rw [holds, lookup_singleton, get?_object, hm] at hheld
            cases hheld
    | _ =>
      refine iff_of_false ?_ ?_
      · intro h
        cases isObject_of_pythonJsonEq h
      · rintro ⟨-, hmeets⟩
        obtain ⟨m, hm⟩ := hmeets [] t (lookup_nil _)
        rw [lookup_nil] at hm
        cases hm
  | _ =>
    rw [applyDiff_of_not_object rfl]
    constructor
    · intro h
      refine ⟨fun p x hx => ?_, fun p o ho => ?_⟩
      · cases p with
        | nil =>
          obtain ⟨hl, -⟩ := valueAt_eq_some.mp hx
          rw [lookup_nil, Option.some.injEq] at hl
          exact holds_iff.mpr ⟨cur, lookup_nil cur, hl ▸ pythonJsonEq_symm h⟩
        | cons k p =>
          rw [valueAt, lookup_cons_of_not_isObject rfl] at hx
          cases hx
      · cases isObject_of_lookup_object ho
    · rintro ⟨hholds, -⟩
      obtain ⟨c, hc, heq⟩ := holds_iff.mp (hholds [] _ (valueAt_eq_some.mpr ⟨lookup_nil _, rfl⟩))
      rw [lookup_nil, Option.some.injEq] at hc
      exact pythonJsonEq_symm (hc ▸ heq)

/-! ## An empty diff -/

/-- An object with something in it that meets a value is in the diff. -/
theorem meetsValuesEmpty_of_isEmptyObject_generateDiff {cur : Json} {t : IndexMap String Json}
    (h : isEmptyObject (generateDiff cur (.object t) false) = true) :
    MeetsValuesEmpty cur (.object t) := by
  intro p
  induction p generalizing cur t with
  | nil =>
    intro o c ho hc hobj
    rw [lookup_nil, Option.some.injEq] at ho hc
    rw [← hc] at hobj
    cases ho
    exact IndexMap.isEmpty_iff.mpr (isEmptyObject_generateDiff_from_leaf hobj h)
  | cons k p ih =>
    intro o c ho hc hobj
    cases cur with
    | object m =>
      rw [lookup_object_cons] at ho hc
      obtain ⟨v, hv, hvo⟩ := Option.bind_eq_some_iff.mp ho
      obtain ⟨w, hw, hwc⟩ := Option.bind_eq_some_iff.mp hc
      have hentry := (isEmptyObject_generateDiff m t).mp h k v hv
      cases v with
      | object o' =>
        rw [diffEntry_object, hw, Option.getD_some] at hentry
        exact ih hentry o c hvo hwc hobj
      | _ => cases isObject_of_lookup_object hvo
    | _ => cases isObject_of_lookup_cons hc

/-- The diff is empty exactly when all values of the write are held and only its empty
objects meet values. -/
theorem isEmptyObject_generateDiff_iff (cur : Json) (t : IndexMap String Json) :
    isEmptyObject (generateDiff cur (.object t) false) = true ↔
      HoldsAll cur (.object t) ∧ MeetsValuesEmpty cur (.object t) := by
  constructor
  · intro h
    refine ⟨fun p v hv => ?_, meetsValuesEmpty_of_isEmptyObject_generateDiff h⟩
    obtain ⟨hl, hobj⟩ := valueAt_eq_some.mp hv
    exact holds_iff.mpr (lookup_of_isEmptyObject_generateDiff h hl hobj)
  · have hall : ∀ (j : Json) t, j = .object t → ∀ cur, HoldsAll cur (.object t) →
        MeetsValuesEmpty cur (.object t) →
          isEmptyObject (generateDiff cur (.object t) false) = true := by
      intro j
      induction j with
      | object t ih =>
        rintro _ ⟨rfl⟩ cur hholds hmeets
        cases cur with
        | object m =>
          rw [isEmptyObject_generateDiff]
          intro k v hv
          by_cases hobj : v.isObject = true
          · obtain ⟨o, rfl⟩ := exists_of_isObject hobj
            rw [diffEntry_object]
            cases hm : m.get? k with
            | none =>
              exact ih k _ hv o rfl _ (hholds.empty_of_missing hm hv) (meetsValuesEmpty_empty _)
            | some c => exact ih k _ hv o rfl c (hholds.below hm hv) (hmeets.below hm hv)
          · rw [Bool.not_eq_true] at hobj
            have hheld := hholds [k] v
              (valueAt_eq_some.mpr ⟨(lookup_singleton ..).trans hv, hobj⟩)
            rw [holds_iff, lookup_singleton] at hheld
            exact (diffEntry_leaf false hobj _).mpr hheld
        | _ =>
          rw [generateDiff_from_not_object rfl, isEmptyObject_object]
          exact IndexMap.isEmpty_iff.mp (hmeets [] t _ (lookup_nil _) (lookup_nil _) rfl)
      | _ =>
        intro t ht
        cases ht
    exact fun h => hall _ t rfl cur h.1 h.2

/-! ## What is dropped -/

/-- **What an empty diff means.**  The write changes nothing, or adds empty objects only.
So `set_nested_tags` drops a write exactly in these two cases. -/
theorem dropped_write_iff (cur : Json) (tags : IndexMap String Json) :
    (isEmptyObject (generateDiff cur (.object tags) false) = true ↔
      pythonJsonEq (applyDiff cur (.object tags) false) cur = true ∨
        OnlyAddsEmpty cur (.object tags)) ∧
    ∀ (st : TagsState) (flush log : Bool),
      st.setNestedTags (.object tags) ⟨true, flush, log⟩ = (st, .unchanged) ↔
        pythonJsonEq (applyDiff st.current (.object tags) false) st.current = true ∨
          OnlyAddsEmpty st.current (.object tags) := by
  have hempty : ∀ cur, isEmptyObject (generateDiff cur (.object tags) false) = true ↔
      pythonJsonEq (applyDiff cur (.object tags) false) cur = true ∨
        OnlyAddsEmpty cur (.object tags) := by
    intro cur
    rw [isEmptyObject_generateDiff_iff, pythonJsonEq_applyDiff_self_iff]
    constructor
    · rintro ⟨hholds, hvalues⟩
      by_cases hobjects : MeetsObjects cur (.object tags)
      · exact .inl ⟨hholds, hobjects⟩
      · exact .inr ⟨hholds, hobjects, hvalues⟩
    · rintro (⟨hholds, hobjects⟩ | ⟨hholds, -, hvalues⟩)
      · exact ⟨hholds, meetsValuesEmpty_of_meetsObjects hobjects⟩
      · exact ⟨hholds, hvalues⟩
  refine ⟨hempty cur, fun st flush log => ?_⟩
  rw [← hempty st.current]
  constructor
  · intro h
    have hout := TagsState.setNestedTags_snd st (.object tags) ⟨true, flush, log⟩
    rw [h] at hout
    by_contra hkept
    have hsup : st.suppresses (.object tags) ⟨true, flush, log⟩ = false := by
      rw [TagsState.suppresses, Bool.true_and]
      exact (Bool.not_eq_true _).mp hkept
    rw [hsup] at hout
    cases flush <;> cases hout
  · intro h
    refine TagsState.setNestedTags_of_suppresses _ _ _ ?_
    rw [TagsState.suppresses, Bool.true_and, h]

/-- Putting an empty object over a value is dropped, though the value would go. -/
theorem empty_object_dropped :
    ¬ ∀ cur tags : IndexMap String Json,
      (isEmptyObject (generateDiff (.object cur) (.object tags) false) = true ↔
        pythonJsonEq (applyDiff (.object cur) (.object tags) false) (.object cur) = true) := by
  intro h
  have hdropped := (h (.ofList [("mode", .string "auto")]) (.ofList [("mode", .object .empty)])).mp
    (by decide)
  exact absurd hdropped (by decide)

end Doover
