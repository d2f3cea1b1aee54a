import Doover.DiffLookup

/-! # Diffs that only add

A diff generated without deletions and applied without deletions gives the new value back
when the new value only adds to the old one: each object that stays an object keeps its keys
(`KeepsKeys`), and no empty object is new (`AddsNoEmpty`).  Then what is applied need not be the diff of the
very value it is applied to.  A value that Python takes for the old one will do
(`rel_applyEntry`), as far as Python's equality is transitive, which it is not for integers
that no double can represent: `ValuesIn` names the values it is transitive on.
-/

namespace Doover
open Json

/-! ## Python's equality -/

/-- Both are missing, or both are there and equal. -/
abbrev RelEq : Option Json → Option Json → Prop :=
  Option.Rel fun v w => pythonJsonEq v w = true

theorem relEq_refl (x : Option Json) : RelEq x x := by
  cases x with
  | none => exact .none
  | some v => exact .some (pythonJsonEq_refl v)

theorem RelEq.symm {x y : Option Json} (h : RelEq x y) : RelEq y x := by
  cases h with
  | none => exact .none
  | some heq => exact .some (pythonJsonEq_symm heq)

/-- Equal values are equal for Python. -/
theorem pythonJsonEq_of_beq {i j : Json} (h : beq i j = true) : pythonJsonEq i j = true :=
  pythonJsonEq_of_schemaEq (beq_iff.mp h).1

/-- The values other than objects in `j`, arrays being such values. -/
def ValuesIn (V : Json → Prop) (j : Json) : Prop := ∀ p v, j.valueAt p = some v → V v

/-- Python's equality is transitive between values of `V`. -/
def TransitiveOn (V : Json → Prop) : Prop :=
  ∀ x y z, V x → V z → pythonJsonEq x y = true → pythonJsonEq y z = true →
    pythonJsonEq x z = true

section Transitive
variable {V : Json → Prop}

theorem ValuesIn.get? {m : IndexMap String Json} (h : ValuesIn V (.object m)) {k : String}
    {v : Json} (hk : m.get? k = some v) : ValuesIn V v := by
  intro p x hx
  exact h (k :: p) x ((valueAt_object_cons hk p).trans hx)

/-- So it is between trees of them. -/
theorem pythonJsonEq_trans (hV : TransitiveOn V) {a b c : Json} (ha : ValuesIn V a)
    (hc : ValuesIn V c) (hab : pythonJsonEq a b = true) (hbc : pythonJsonEq b c = true) :
    pythonJsonEq a c = true := by
  induction a generalizing b c with
  | object m ih =>
    obtain ⟨n, rfl⟩ := exists_of_isObject (isObject_of_pythonJsonEq hab).symm
    obtain ⟨o, rfl⟩ := exists_of_isObject (isObject_of_pythonJsonEq hbc).symm
    rw [pythonJsonEq_object_iff] at hab hbc ⊢
    intro k
    have hk := hab k
    have hk' := hbc k
    cases hm : m.get? k with
    | none =>
      rw [hm] at hk
      rw [rel_none_left.mp hk] at hk'
      exact hk'
    | some v =>
      rw [hm] at hk
      obtain ⟨w, hw, hvw⟩ := rel_some_left.mp hk
      rw [hw] at hk'
      obtain ⟨z, hz, hwz⟩ := rel_some_left.mp hk'
      rw [hz]
      exact .some (ih k v hm (ha.get? hm) (hc.get? hz) hvw hwz)
  | _ =>
    have hleaf : c.isObject = false :=
      ((isObject_of_pythonJsonEq hab).trans (isObject_of_pythonJsonEq hbc)).symm
    exact hV _ b c (ha [] _ (valueAt_eq_some.mpr ⟨lookup_nil _, rfl⟩))
      (hc [] c (valueAt_eq_some.mpr ⟨lookup_nil c, hleaf⟩)) hab hbc

end Transitive

/-! ## Applying one diff to equal values -/

/-- What a diff makes of equal values is equal. -/
theorem rel_applyEntry (d : Json) {x y : Option Json} (h : RelEq x y) :
    RelEq (applyEntry false d x) (applyEntry false d y) := by
  induction d generalizing x y with
  | object d ih =>
    cases h with
    | none => exact relEq_refl _
    | @some a b heq =>
      rw [applyEntry_some, applyEntry_some]
      refine .some ?_
      cases a with
      | object m =>
        obtain ⟨n, rfl⟩ := exists_of_isObject (isObject_of_pythonJsonEq heq).symm
        obtain ⟨r, hr, hrk⟩ := applyDiff_object m d false
        obtain ⟨s, hs, hsk⟩ := applyDiff_object n d false
        rw [hr, hs, pythonJsonEq_object_iff]
        intro k
        have hk := pythonJsonEq_object_iff.mp heq k
        rw [hrk k, hsk k]
        cases hd : d.get? k with
        | none => exact hk
        | some v => exact ih k v hd hk
      | _ =>
        -- the diff replaces both
        have hb : b.isObject = false := (isObject_of_pythonJsonEq heq).symm
        cases b with
        | object n => cases hb
        | _ => exact pythonJsonEq_refl _
  | _ => exact relEq_refl _

/-! ## Values that only grow -/

/-- No object in the value is empty. -/
def Full (j : Json) : Prop := ∀ p o, j.lookup p = some (.object o) → o.isEmpty = false

/-- An empty object of `new` meets an object in `old`. -/
def AddsNoEmpty (old : Option Json) (new : Json) : Prop :=
  ∀ p o, new.lookup p = some (.object o) → o.isEmpty = true →
    ∃ m, old.bind (fun c => c.lookup p) = some (.object m)

/-- An object of `old` that is one in `new` too has all its keys there. -/
def KeepsKeys (old new : Json) : Prop :=
  ∀ p m o k v, old.lookup p = some (.object m) → new.lookup p = some (.object o) →
    m.get? k = some v → o.get? k ≠ none

section Keys
variable {m o : IndexMap String Json} {k : String} {v : Json}

theorem Full.get? (h : Full (.object o)) (hk : o.get? k = some v) : Full v := by
  intro p e he
  refine h (k :: p) e ?_
  rw [lookup_object_cons, hk, Option.bind_some, he]

theorem AddsNoEmpty.get? {old : Option Json} (h : AddsNoEmpty old (.object o))
    (hm : old.getD (.object .empty) = .object m) (hk : o.get? k = some v) :
    AddsNoEmpty (m.get? k) v := by
  intro p e he hempty
  obtain ⟨r, hr⟩ := h (k :: p) e (by rw [lookup_object_cons, hk, Option.bind_some, he]) hempty
  cases old with
  | none => cases hr
  | some c =>
    rw [Option.getD_some] at hm
    rw [hm, Option.bind_some, lookup_object_cons] at hr
    exact ⟨r, hr⟩

/-- Over a value that is no object it has to be full. -/
theorem AddsNoEmpty.full {c : Json} (h : AddsNoEmpty (some c) v) (hc : c.isObject = false) :
    Full v := by
  intro p o ho
  by_contra hempty
  rw [Bool.not_eq_false] at hempty
  obtain ⟨r, hr⟩ := h p o ho hempty
  rw [Option.bind_some] at hr
  rw [isObject_of_lookup_object hr] at hc
  cases hc

theorem AddsNoEmpty.full_of_none (h : AddsNoEmpty none v) : Full v := by
  intro p o ho
  by_contra hempty
  rw [Bool.not_eq_false] at hempty
  obtain ⟨r, hr⟩ := h p o ho hempty
  cases hr

theorem full_of_not_isObject (hv : v.isObject = false) : Full v :=
  AddsNoEmpty.full (c := v) (fun _ o ho _ => ⟨o, ho⟩) hv

theorem Full.addsNoEmpty (h : Full v) (old : Option Json) : AddsNoEmpty old v := by
  intro p o ho hempty
  rw [h p o ho] at hempty
  cases hempty

theorem keepsKeys_of_not_isObject (hv : v.isObject = false) (old : Json) : KeepsKeys old v := by
  intro p m o k w _ ho _
  rw [isObject_of_lookup_object ho] at hv
  cases hv

theorem KeepsKeys.get? (h : KeepsKeys (.object m) (.object o)) (hk : o.get? k = some v) :
    KeepsKeys ((m.get? k).getD (.object .empty)) v := by
  intro p m' o' k' v' hm' ho' hv'
  cases hm : m.get? k with
  | none =>
    rw [hm, Option.getD_none] at hm'
    cases p with
    | nil =>
      rw [lookup_nil, Option.some.injEq, Json.object.injEq] at hm'
      rw [← hm', IndexMap.get?_empty] at hv'
      cases hv'
    | cons k'' p =>
      rw [(misses_empty k'' p).lookup] at hm'
      cases hm'
  | some w =>
    rw [hm, Option.getD_some] at hm'
    refine h (k :: p) m' o' k' v' ?_ ?_ hv'
    · rw [lookup_object_cons, hm, Option.bind_some, hm']
    · rw [lookup_object_cons, hk, Option.bind_some, ho']

theorem KeepsKeys.eq_none (h : KeepsKeys (.object m) (.object o)) (hk : o.get? k = none) :
    m.get? k = none := by
  cases hm : m.get? k with
  | none => rfl
  | some w => exact absurd hk (h [] m o k w (lookup_nil _) (lookup_nil _) hm)

end Keys

/-- Some value is in a full one. -/
theorem Full.exists_valueAt {j : Json} (h : Full j) : ∃ p v, j.valueAt p = some v := by
  induction j with
  | object o ih =>
    obtain ⟨k, v, hk⟩ := IndexMap.isEmpty_eq_false_iff.mp (h [] o (lookup_nil _))
    obtain ⟨p, x, hx⟩ := ih k v hk (h.get? hk)
    exact ⟨k :: p, x, (valueAt_object_cons hk p).trans hx⟩
  | _ => exact ⟨[], _, valueAt_eq_some.mpr ⟨lookup_nil _, rfl⟩⟩

theorem Full.lookup {j v : Json} (h : Full j) {p : List String} (hv : j.lookup p = some v) :
    Full v := by
  intro q o ho
  refine h (p ++ q) o ?_
  rw [lookup_append, hv, Option.bind_some, ho]

theorem full_construct {d : Json} (h : Full d) (p : List String) :
    Full (KeyPath.construct ⟨p⟩ d) := by
  induction p with
  | nil => exact h
  | cons k p ih =>
    intro q o ho
    rw [KeyPath.construct_cons] at ho
    cases q with
    | nil =>
      rw [lookup_nil, Option.some.injEq, Json.object.injEq] at ho
      by_contra hempty
      rw [Bool.not_eq_false, ← ho, IndexMap.isEmpty_iff] at hempty
      have hk := hempty k
      rw [IndexMap.get?_insert_self] at hk
      cases hk
    | cons k' q =>
      rw [lookup_object_cons, IndexMap.get?_insert] at ho
      by_cases hk : k' = k
      · rw [if_pos hk, Option.bind_some] at ho
        exact ih q o ho
      · rw [if_neg hk, IndexMap.get?_empty, Option.bind_none] at ho
        cases ho

/-- Merged over what it keeps the keys of, a value is all there is. -/
theorem rel_applyEntry_self {old : Option Json} {new : Json}
    (h : KeepsKeys (old.getD (.object .empty)) new) :
    RelEq (applyEntry false new old) (some new) := by
  induction new generalizing old with
  | object o ih =>
    cases old with
    | none =>
      rw [applyEntry_none]
      exact relEq_refl _
    | some c =>
      rw [applyEntry_some]
      refine .some ?_
      cases c with
      | object m =>
        obtain ⟨r, hr, hrk⟩ := applyDiff_object m o false
        rw [hr, pythonJsonEq_object_iff]
        intro k
        rw [hrk k]
        cases hk : o.get? k with
        | none =>
          rw [h.eq_none hk]
          exact .none
        | some v => exact ih k v hk (h.get? hk)
      | _ => exact pythonJsonEq_refl _
  | _ => exact relEq_refl _

/-- One key of a value that only grew. -/
theorem rel_generateDiff_key {m o d : IndexMap String Json}
    (hd : generateDiff (.object m) (.object o) false = .object d)
    (hkeeps : KeepsKeys (.object m) (.object o))
    (hkeys : ∀ k v, o.get? k = some v →
      (∀ e, diffEntry false v (m.get? k) = some e →
          RelEq (applyEntry false e (m.get? k)) (some v)) ∧
        (diffEntry false v (m.get? k) = none → RelEq (m.get? k) (some v))) (k : String) :
    (∀ e, d.get? k = some e → RelEq (applyEntry false e (m.get? k)) (o.get? k)) ∧
      (d.get? k = none → RelEq (m.get? k) (o.get? k)) := by
  have hdk := get?_generateDiff m o k
  rw [hd, get?_object] at hdk
  rw [hdk]
  cases ho : o.get? k with
  | none =>
    rw [Option.bind_none, hkeeps.eq_none ho]
    exact ⟨fun e he => (by cases he), fun _ => .none⟩
  | some v => exact hkeys k v ho

/-- **The diff to a value that only grew.**  Applied to the old value it gives the new one;
when there is none, the two are equal. -/
theorem rel_diffEntry {old : Option Json} {new : Json}
    (hkeeps : KeepsKeys (old.getD (.object .empty)) new) (hno : AddsNoEmpty old new) :
    (∀ e, diffEntry false new old = some e → RelEq (applyEntry false e old) (some new)) ∧
      (diffEntry false new old = none → RelEq old (some new)) := by
  have hwhole : ∀ {old : Option Json} {new : Json},
      KeepsKeys (old.getD (.object .empty)) new → Fresh (old.getD (.object .empty)) new →
      (∀ e, diffEntry false new old = some e → RelEq (applyEntry false e old) (some new)) ∧
        (diffEntry false new old = none → RelEq old (some new)) := by
    intro old new hkeeps hfresh
    rw [(diffEntry_eq_self_iff new old).mpr hfresh]
    refine ⟨fun e he => ?_, fun h => by cases h⟩
    cases he
    exact rel_applyEntry_self hkeeps
  induction new generalizing old with
  | object o ih =>
    cases old with
    | none =>
      refine hwhole hkeeps ⟨fun p v hv => ?_, fun p e he hempty => ?_⟩
      · exact holds_empty (valueAt_eq_some.mp hv).2 p
      · obtain ⟨m, hm⟩ := hno p e he hempty
        cases hm
    | some c =>
      cases c with
      | object m =>
        obtain ⟨d, hd, -⟩ := generateDiff_object m o false
        have hkey := rel_generateDiff_key hd hkeeps fun k v hk =>
          ih k v hk (hkeeps.get? hk) (hno.get? rfl hk)
        by_cases hempty : isEmptyObject (generateDiff (.object m) (.object o) false) = true
        · rw [(diffEntry_object false o (some (.object m))).mpr hempty]
          refine ⟨fun e he => (by cases he), fun _ => .some ?_⟩
          rw [hd, isEmptyObject_object] at hempty
          rw [pythonJsonEq_object_iff]
          exact fun k => (hkey k).2 (hempty k)
        · rw [Bool.not_eq_true] at hempty
          have hentry : diffEntry false (.object o) (some (.object m)) =
              some (generateDiff (.object m) (.object o) false) := diffEntry_of_not_empty hempty
          rw [hentry, hd]
          refine ⟨fun e he => ?_, fun h => by cases h⟩
          cases he
          obtain ⟨r, hr, hrk⟩ := applyDiff_object m d false
          rw [applyEntry_some, hr]
          refine .some (pythonJsonEq_object_iff.mpr fun k => ?_)
          rw [hrk k]
          cases hdk : d.get? k with
          | none => exact (hkey k).2 hdk
          | some e => exact (hkey k).1 e hdk
      | _ =>
        exact hwhole hkeeps ((fresh_over_value_iff rfl o).mpr (hno.full rfl [] o (lookup_nil _)))
  | _ =>
    refine ⟨fun e he => ?_, fun h => ?_⟩
    · rw [eq_of_diffEntry_leaf rfl he]
      exact rel_applyEntry_self hkeeps
    · obtain ⟨c, hc, heq⟩ := (diffEntry_leaf false rfl _).mp h
      rw [hc]
      exact .some heq

/-- What holds of the values a diff has whole holds of the diff, when it holds of an object
whose entries have it. -/
theorem diffEntry_induction {Q : Option Json → Json → Prop} {R : Json → Prop}
    (hpart : ∀ old m o k v, Q old (.object o) → old.getD (.object .empty) = .object m →
      o.get? k = some v → Q (m.get? k) v)
    (hobject : ∀ d : IndexMap String Json, d.isEmpty = false →
      (∀ k e, d.get? k = some e → R e) → R (.object d))
    (hleaf : ∀ old v, Q old v → v.isObject = false → R v)
    (hover : ∀ c v, Q (some c) v → c.isObject = false → R v)
    {v e : Json} {old : Option Json} (hv : Q old v) (h : diffEntry false v old = some e) :
    R e := by
  induction v generalizing e old with
  | object o ih =>
    by_cases hempty :
        isEmptyObject (generateDiff (old.getD (.object .empty)) (.object o) false) = true
    · rw [(diffEntry_object false o old).mpr hempty] at h
      cases h
    · rw [Bool.not_eq_true] at hempty
      rw [diffEntry_of_not_empty hempty, Option.some.injEq] at h
      rw [h] at hempty
      cases hcur : old.getD (.object .empty) with
      | object m =>
        rw [hcur] at h
        obtain ⟨d, hd, -⟩ := generateDiff_object m o false
        rw [← h, hd]
        rw [← h, hd] at hempty
        refine hobject d hempty fun k x hx => ?_
        have hdk := get?_generateDiff m o k
        rw [hd, get?_object, hx] at hdk
        obtain ⟨w, hw, hentry⟩ := Option.bind_eq_some_iff.mp hdk.symm
        exact ih k w hw (hpart old m o k w hv hcur hw) hentry
      | _ =>
        -- the whole value, over one that is no object
        rw [hcur, generateDiff_from_not_object rfl] at h
        cases old with
        | none => cases hcur
        | some c =>
          rw [Option.getD_some] at hcur
          exact h ▸ hover c _ hv (hcur ▸ rfl)
  | _ =>
    rw [eq_of_diffEntry_leaf rfl h]
    exact hleaf old _ hv rfl

/-- What has no empty object that is new has a diff that is full. -/
theorem full_diffEntry {v e : Json} {old : Option Json} (hv : AddsNoEmpty old v)
    (h : diffEntry false v old = some e) : Full e := by
  refine diffEntry_induction (fun old m o k v ho hm hk => ho.get? hm hk)
    (fun d hd hparts => ?_) (fun _ _ _ hleaf => full_of_not_isObject hleaf)
    (fun c v hv hc => hv.full hc) hv h
  intro p o ho
  cases p with
  | nil =>
    rw [lookup_nil, Option.some.injEq, Json.object.injEq] at ho
    exact ho ▸ hd
  | cons k p =>
    rw [lookup_object_cons] at ho
    obtain ⟨x, hx, hxo⟩ := Option.bind_eq_some_iff.mp ho
    exact hparts k x hx p o hxo

theorem valuesIn_diffEntry {V : Json → Prop} {v e : Json} {old : Option Json}
    (hv : ValuesIn V v) (h : diffEntry false v old = some e) : ValuesIn V e := by
  refine diffEntry_induction (Q := fun _ v => ValuesIn V v)
    (fun old m o k v ho _ hk => ho.get? hk) (fun d _ hparts => ?_)
    (fun _ _ hv _ => hv) (fun _ _ hv _ => hv) hv h
  intro p x hx
  cases p with
  | nil => exact absurd rfl (ne_nil_of_valueAt hx)
  | cons k p =>
    obtain ⟨hl, hleaf⟩ := valueAt_eq_some.mp hx
    rw [lookup_object_cons] at hl
    obtain ⟨y, hy, hyx⟩ := Option.bind_eq_some_iff.mp hl
    exact hparts k y hy p x (valueAt_eq_some.mpr ⟨hyx, hleaf⟩)

end Doover
