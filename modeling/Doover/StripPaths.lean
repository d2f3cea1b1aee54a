import Doover.TagWrites

/-! # Stripping promoted paths

`strip_paths` takes out of one bucket what was promoted to another.  Of a key that both have
it leaves an object with something in it, or nothing (`stripEntry_eq_some`); from there on
everything is by induction on the path, the frame included: a path is left as it was unless
it meets one that ends in `paths`, by running through its end or by ending above it.
-/

namespace Doover
open Json

/-- A path of `paths` that ends in a value other than an object. -/
def LeafPath (paths : Json) (p : List String) : Prop := p ≠ [] ∧ ∃ v, paths.valueAt p = some v

/-- A path of `paths` that cannot be extended: it ends in a value other than an object, or
in an empty object. -/
def MaximalPath (paths : Json) (p : List String) : Prop :=
  p ≠ [] ∧ ∃ v, paths.lookup p = some v ∧ (v.isObject = true → isEmptyObject v = true)

/-! ## One key -/

section Key
variable {m d : IndexMap String Json} {k : String} {v r : Json}

/-- **What a strip leaves of a key.**  An object stripped of an object, with something left
in it. -/
theorem stripEntry_eq_some {existing : Option Json} :
    stripEntry v existing = some r ↔
      ∃ o e s, v = .object o ∧ existing = some (.object e) ∧
        stripPaths (.object e) (.object o) = .object s ∧ s.isEmpty = false ∧ r = .object s := by
  cases existing with
  | none =>
    rw [stripEntry, Option.bind_none]
    constructor
    · intro h
      cases h
    · rintro ⟨o, e, s, -, he, -⟩
      cases he
  | some e =>
    rw [stripEntry, Option.bind_some]
    by_cases hboth : (v.isObject && e.isObject) = true
    · obtain ⟨hv, he⟩ := Bool.and_eq_true_iff.mp hboth
      obtain ⟨o, rfl⟩ := exists_of_isObject hv
      obtain ⟨e, rfl⟩ := exists_of_isObject he
      obtain ⟨s, hs, -⟩ := stripPaths_object e o
      simp only [hboth, if_true, hs, asObject, Option.any_some]
      constructor
      · intro h
        split at h
        · cases h
        · rename_i hne
          exact ⟨o, e, s, rfl, rfl, hs, (Bool.not_eq_true _).mp hne, (Option.some.inj h).symm⟩
      · rintro ⟨o', e', s', ho, he', hs', hne, rfl⟩
        cases ho
        cases he'
        rw [hs] at hs'
        cases hs'
        rw [hne, if_neg Bool.false_ne_true]
    · rw [if_neg hboth]
      constructor
      · intro h
        cases h
      · rintro ⟨o, e', s, rfl, he, -⟩
        cases he
        exact absurd rfl hboth

theorem lookup_stripPaths_cons (m d : IndexMap String Json) (k : String) (p : List String) :
    (stripPaths (.object m) (.object d)).lookup (k :: p) =
      ((d.get? k).elim (m.get? k) fun v => stripEntry v (m.get? k)).bind fun r => r.lookup p := by
  obtain ⟨r, hr, hrk⟩ := stripPaths_object m d
  rw [hr, lookup_object_cons, hrk k]

end Key

/-! ## Maximal paths -/

/-- A value other than an object ends a path, and so does an empty object; below any other
a path ends. -/
theorem exists_maximalPath_below (v : Json) :
    ∃ p x, v.lookup p = some x ∧ (x.isObject = true → isEmptyObject x = true) := by
  induction v with
  | object o ih =>
    by_cases hempty : o.isEmpty = true
    · exact ⟨[], .object o, lookup_nil _, fun _ => hempty⟩
    · obtain ⟨k, v, hk⟩ := IndexMap.isEmpty_eq_false_iff.mp ((Bool.not_eq_true _).mp hempty)
      obtain ⟨p, x, hx, hend⟩ := ih k v hk
      exact ⟨k :: p, x, by rw [lookup_object_cons, hk, Option.bind_some, hx], hend⟩
  | _ =>
    refine ⟨[], _, lookup_nil _, fun h => ?_⟩
    cases h

section Below
variable {d : IndexMap String Json} {k : String} {v : Json}

theorem MaximalPath.cons {p : List String} (hk : d.get? k = some v) {x : Json}
    (hx : v.lookup p = some x) (hend : x.isObject = true → isEmptyObject x = true) :
    MaximalPath (.object d) (k :: p) :=
  ⟨List.cons_ne_nil k p, x, by rw [lookup_object_cons, hk, Option.bind_some, hx], hend⟩

/-- Below a key lies the end of a path. -/
theorem exists_maximalPath (hk : d.get? k = some v) : ∃ p, MaximalPath (.object d) (k :: p) := by
  obtain ⟨p, x, hx, hend⟩ := exists_maximalPath_below v
  exact ⟨p, .cons hk hx hend⟩

end Below

/-! ## What is gone, and what stays -/

/-- **Leaves are gone.** -/
theorem lookup_stripPaths_of_leafPath {m d : IndexMap String Json} {p : List String}
    (h : LeafPath (.object d) p) : (stripPaths (.object m) (.object d)).lookup p = none := by
  obtain ⟨hne, v, hv⟩ := h
  induction p generalizing m d with
  | nil => exact absurd rfl hne
  | cons k p ih =>
    rw [valueAt_cons] at hv
    obtain ⟨w, hw, hwv⟩ := Option.bind_eq_some_iff.mp hv
    rw [lookup_stripPaths_cons, hw, Option.elim_some]
    cases hr : stripEntry w (m.get? k) with
    | none => rfl
    | some r =>
      obtain ⟨o, e, s, rfl, -, hs, -, rfl⟩ := stripEntry_eq_some.mp hr
      rw [Option.bind_some, ← hs]
      exact ih (ne_nil_of_valueAt hwv) hwv

/-- **Nothing hollow is left above a leaf.** -/
theorem stripPaths_pruned {m d o : IndexMap String Json} {p : List String} {w : Json} (hne : p ≠ [])
    (hp : (Json.object d).lookup p = some (.object o))
    (hw : (stripPaths (.object m) (.object d)).lookup p = some w) :
    ∃ s, w = .object s ∧ s.isEmpty = false := by
  induction p generalizing m d with
  | nil => exact absurd rfl hne
  | cons k p ih =>
    rw [lookup_object_cons] at hp
    obtain ⟨v, hv, hvo⟩ := Option.bind_eq_some_iff.mp hp
    rw [lookup_stripPaths_cons, hv, Option.elim_some] at hw
    obtain ⟨r, hr, hrw⟩ := Option.bind_eq_some_iff.mp hw
    obtain ⟨o', e, s, rfl, -, hs, hfull, rfl⟩ := stripEntry_eq_some.mp hr
    cases p with
    | nil =>
      rw [lookup_nil, Option.some.injEq] at hrw
      exact ⟨s, hrw.symm, hfull⟩
    | cons k' p =>
      rw [← hs] at hrw
      exact ih (List.cons_ne_nil k' p) hvo hrw

/-- The path meets no end of `paths`, neither on its way nor below it. -/
def Clear (paths : Json) (q : List String) : Prop :=
  ∀ p, MaximalPath paths p → ¬ p <+: q ∧ ¬ q <+: p

/-- Below a key that `paths` has, a clear path goes on, into an object with something in
it. -/
theorem Clear.cons {d : IndexMap String Json} {k : String} {q : List String} {v : Json}
    (h : Clear (.object d) (k :: q)) (hk : d.get? k = some v) :
    ∃ o, v = .object o ∧ q ≠ [] ∧ Clear (.object o) q := by
  have hcross : ∀ p, MaximalPath (.object d) (k :: p) → ¬ p <+: q ∧ ¬ q <+: p := by
    intro p hp
    obtain ⟨hpq, hqp⟩ := h (k :: p) hp
    rw [List.prefix_cons_inj] at hpq hqp
    exact ⟨hpq, hqp⟩
  obtain ⟨p, hp⟩ := exists_maximalPath hk
  have hq : q ≠ [] := by
    rintro rfl
    exact (hcross p hp).2 List.nil_prefix
  cases v with
  | object o =>
    refine ⟨o, rfl, hq, fun p' hp' => ?_⟩
    obtain ⟨-, x, hx, hend⟩ := hp'
    exact hcross p' (.cons hk hx hend)
  | _ =>
    refine absurd List.nil_prefix (hcross [] (.cons hk (lookup_nil _) fun h => ?_)).1
    cases h

/-- **Frame.**  A path that meets no end of `paths` is left as it was. -/
theorem lookup_stripPaths_of_clear {m d : IndexMap String Json} {q : List String}
    (h : Clear (.object d) q) :
    (stripPaths (.object m) (.object d)).lookup q = (Json.object m).lookup q := by
  induction q generalizing m d with
  | nil =>
    -- then `paths` is empty
    have hkeys : d.keys = [] := by
      rw [← List.isEmpty_iff]
      refine IndexMap.isEmpty_iff.mpr fun k => ?_
      by_contra hk
      obtain ⟨v, hv⟩ := Option.ne_none_iff_exists'.mp hk
      obtain ⟨p, hp⟩ := exists_maximalPath hv
      exact (h _ hp).2 List.nil_prefix
    obtain ⟨dk, dn, dv⟩ := d
    obtain rfl : dk = [] := hkeys
    rfl
  | cons k q ih =>
    rw [lookup_stripPaths_cons, lookup_object_cons]
    cases hk : d.get? k with
    | none => rfl
    | some v =>
      obtain ⟨o, rfl, hq, hclear⟩ := h.cons hk
      rw [Option.elim_some]
      obtain ⟨k', q, rfl⟩ := List.exists_cons_of_ne_nil hq
      cases hm : m.get? k with
      | none => rfl
      | some e =>
        by_cases he : e.isObject = true
        · obtain ⟨e, rfl⟩ := exists_of_isObject he
          rw [Option.bind_some, ← ih hclear]
          cases hr : stripEntry (.object o) (some (.object e)) with
          | none =>
            -- nothing is left, so nothing was at `q`
            obtain ⟨s, hs, -⟩ := stripPaths_object e o
            have hempty : s.isEmpty = true := by
              by_contra hfull
              rw [Bool.not_eq_true] at hfull
              rw [stripEntry_eq_some.mpr ⟨o, e, s, rfl, rfl, hs, hfull, rfl⟩] at hr
              cases hr
            rw [hs, lookup_object_cons, IndexMap.isEmpty_iff.mp hempty]
            rfl
          | some r =>
            obtain ⟨o', e', s, ho, he', hs, -, rfl⟩ := stripEntry_eq_some.mp hr
            cases ho
            cases he'
            rw [Option.bind_some, hs]
        · rw [Bool.not_eq_true] at he
          have hnone : stripEntry (.object o) (some e) = none := by
            rw [stripEntry, Option.bind_some, he, Bool.and_false, if_neg Bool.false_ne_true]
          rw [hnone, Option.bind_some, lookup_cons_of_not_isObject he]
          rfl

/-! ## Stripping twice -/

/-- A map whose keys are all stripped to what they are stays what it is. -/
theorem stripPaths_of_entries {m d : IndexMap String Json}
    (h : ∀ k v, d.get? k = some v → stripEntry v (m.get? k) = m.get? k) :
    stripPaths (.object m) (.object d) = .object m := by
  obtain ⟨dk, dn, dv⟩ := d
  rw [stripPaths]
  refine congrArg Json.object (List.foldl_fixed' (fun k => ?_) _)
  have hentry := h k.1 (dv k) (IndexMap.get?_of_mem k.2)
  cases hm : m.get? k.1 with
  | none => rfl
  | some e =>
    rw [hm] at hentry
    obtain ⟨o, e', s, hv, he, hs, hfull, rfl⟩ := stripEntry_eq_some.mp hentry
    cases he
    have hboth : ((dv k).isObject && (Json.object e').isObject) = true := by
      rw [hv]
      rfl
    rw [← hv] at hs
    simp only [hboth, if_true, hs, IndexMap.insert_of_get? hm, asObject, Option.any_some, hfull,
      Bool.false_eq_true, if_false]

theorem stripPaths_idem (target paths : Json) :
    stripPaths (stripPaths target paths) paths = stripPaths target paths := by
  induction paths generalizing target with
  | object d ih =>
    cases target with
    | object m =>
      obtain ⟨r, hr, hrk⟩ := stripPaths_object m d
      rw [hr]
      refine stripPaths_of_entries fun k v hk => ?_
      rw [hrk k, hk, Option.elim_some]
      cases hentry : stripEntry v (m.get? k) with
      | none => rfl
      | some x =>
        obtain ⟨o, e, s, rfl, -, hs, hfull, rfl⟩ := stripEntry_eq_some.mp hentry
        have hagain := ih k _ hk (.object e)
        rw [hs] at hagain
        exact stripEntry_eq_some.mpr ⟨o, s, s, rfl, rfl, hagain, hfull, rfl⟩
    | _ => rfl
  | _ => rfl

/-- **Exactly the promoted leaves are stripped.**  No leaf path of `paths` is left, a path that
meets no end of `paths` is as it was, above the leaves nothing hollow is left, and a second
strip finds nothing to do. -/
theorem strips_promoted_leaves (target paths : IndexMap String Json) :
    let stripped := stripPaths (.object target) (.object paths)
    (∀ p, LeafPath (.object paths) p → stripped.lookup p = none) ∧
      (∀ q, (∀ p, MaximalPath (.object paths) p → ¬ p <+: q ∧ ¬ q <+: p) →
        stripped.lookup q = (Json.object target).lookup q) ∧
      (∀ p l, LeafPath (.object paths) l → p ≠ [] → p <+: l → p ≠ l →
        ∀ w, stripped.lookup p = some w → w.isObject = true ∧ isEmptyObject w = false) ∧
      stripPaths stripped (.object paths) = stripped := by
  intro stripped
  refine ⟨fun p hp => lookup_stripPaths_of_leafPath hp, fun q hq => lookup_stripPaths_of_clear hq,
    fun p l hl hne hpl hproper w hw => ?_, stripPaths_idem _ _⟩
  obtain ⟨q, rfl⟩ := hpl
  obtain ⟨-, v, hv⟩ := hl
  have hq : q ≠ [] := fun hq => hproper (by rw [hq, List.append_nil])
  obtain ⟨k, q, rfl⟩ := List.exists_cons_of_ne_nil hq
  have hlookup := (valueAt_eq_some.mp hv).1
  rw [lookup_append] at hlookup
  obtain ⟨x, hx, hxv⟩ := Option.bind_eq_some_iff.mp hlookup
  obtain ⟨o, rfl⟩ := exists_of_isObject (isObject_of_lookup_cons hxv)
  obtain ⟨s, rfl, hfull⟩ := stripPaths_pruned hne hx hw
  exact ⟨rfl, hfull⟩

end Doover
