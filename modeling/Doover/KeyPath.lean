import Doover.DiffEquality

/-! # Tag paths

A tag is a path into the `tag_values` aggregate, `{<app_key>: {<tag>: value}}`.  A
write of one tag is the value wrapped along its path (`construct`), so it holds
one value only and misses every path that is not an extension or a prefix of its
own (`misses_construct`).
-/

namespace Doover
open Json

/-- A tag key as a path into the aggregate. -/
structure KeyPath where
  path : List String
deriving DecidableEq

namespace KeyPath

/-- A path scoped under an app key; the empty app key is the global scope. -/
def mkScoped (appKey : String) (parts : List String) : KeyPath :=
  ⟨(if appKey.isEmpty then [] else [appKey]) ++ parts⟩

/-- `<app_key>.<tag>`, how the customer site names tags on the wire. -/
def qualifiedName (kp : KeyPath) : String := String.intercalate "." kp.path

/-- Wrap a value into nested objects along the path. -/
def construct (kp : KeyPath) (value : Json) : Json :=
  kp.path.foldr (fun part result => .object (IndexMap.empty.insert part result)) value

/-- Resolve the path; a `null` at its end is found, a missing key is not. -/
def lookup (kp : KeyPath) (root : Json) : Option Json := root.lookup kp.path

def inValue (kp : KeyPath) (root : Json) : Bool := (kp.lookup root).isSome

theorem mkScoped_path_ne_nil (appKey key : String) : (mkScoped appKey [key]).path ≠ [] := by
  simp [mkScoped]

theorem construct_cons (k : String) (p : List String) (v : Json) :
    construct ⟨k :: p⟩ v = .object (IndexMap.empty.insert k (construct ⟨p⟩ v)) := rfl

theorem lookup_construct (p : List String) (v : Json) : (construct ⟨p⟩ v).lookup p = some v := by
  induction p with
  | nil => exact lookup_nil v
  | cons k p ih =>
    rw [construct_cons, lookup_object_cons, IndexMap.get?_insert_self, Option.bind_some, ih]

/-- The only value in the object a write of one tag builds is the tag's. -/
theorem eq_of_lookup_construct {p q : List String} {v x : Json} (hv : v.isObject = false)
    (hx : x.isObject = false) (h : (construct ⟨p⟩ v).lookup q = some x) : q = p ∧ x = v := by
  induction p generalizing q with
  | nil =>
    cases q with
    | nil =>
      rw [lookup_nil, Option.some.injEq] at h
      exact ⟨rfl, h.symm⟩
    | cons k q =>
      rw [isObject_of_lookup_cons (j := v) h] at hv
      cases hv
  | cons k p ih =>
    rw [construct_cons] at h
    cases q with
    | nil =>
      rw [lookup_nil, Option.some.injEq] at h
      rw [← h] at hx
      cases hx
    | cons k' q =>
      rw [lookup_object_cons, IndexMap.get?_insert] at h
      by_cases hk : k' = k
      · rw [if_pos hk, Option.bind_some] at h
        obtain ⟨rfl, rfl⟩ := ih h
        exact ⟨by rw [hk], rfl⟩
      · rw [if_neg hk, IndexMap.get?_empty, Option.bind_none] at h
        cases h

/-- A path that ends in the write of one tag is a prefix of the tag's. -/
theorem prefix_of_lookup_construct {p q : List String} {v x : Json} (hv : v.isObject = false)
    (h : (construct ⟨p⟩ v).lookup q = some x) : q <+: p := by
  induction p generalizing q with
  | nil =>
    cases q with
    | nil => exact List.nil_prefix
    | cons k q =>
      rw [isObject_of_lookup_cons (j := v) h] at hv
      cases hv
  | cons k p ih =>
    cases q with
    | nil => exact List.nil_prefix
    | cons k' q =>
      rw [construct_cons, lookup_object_cons, IndexMap.get?_insert] at h
      by_cases hk : k' = k
      · rw [if_pos hk, Option.bind_some] at h
        exact List.cons_prefix_cons.mpr ⟨hk, ih h⟩
      · rw [if_neg hk, IndexMap.get?_empty, Option.bind_none] at h
        cases h

/-- A write of one tag misses every path that neither extends the tag's nor is a
prefix of it. -/
theorem misses_construct {p q : List String} (v : Json) (hpq : ¬ p <+: q) (hqp : ¬ q <+: p) :
    (construct ⟨p⟩ v).Misses q := by
  induction p generalizing q with
  | nil => exact absurd (List.nil_prefix) hpq
  | cons k p ih =>
    cases q with
    | nil => exact absurd (List.nil_prefix) hqp
    | cons k' q =>
      rw [construct_cons, misses_object_cons]
      intro x hx
      rw [IndexMap.get?_insert] at hx
      by_cases hk : k' = k
      · subst hk
        rw [if_pos rfl, Option.some.injEq] at hx
        rw [List.prefix_cons_inj] at hpq hqp
        exact hx ▸ ih hpq hqp
      · rw [if_neg hk, IndexMap.get?_empty] at hx
        cases hx

theorem isObject_construct {p : List String} (hp : p ≠ []) (v : Json) :
    (construct ⟨p⟩ v).isObject = true := by
  cases p with
  | nil => exact absurd rfl hp
  | cons k p => rfl

end KeyPath

/-- Remove from `target` the leaf keys that `paths` has; an object left empty by it
is removed too. -/
def stripPaths (target paths : Json) : Json :=
  match paths, target with
  | .object ⟨pk, _, pv⟩, .object targetMap =>
    .object (pk.attach.foldl (fun target k =>
      match target.get? k.1 with
      | none => target
      | some existing =>
        if (pv k).isObject && existing.isObject then
          let existing := stripPaths existing (pv k)
          let target := target.insert k.1 existing
          if existing.asObject.any IndexMap.isEmpty then target.swapRemove k.1 else target
        else target.swapRemove k.1) targetMap)
  | _, target => target
termination_by structural paths

/-- What the loop of `stripPaths` leaves of a key that `paths` has. -/
def stripEntry (v : Json) (existing : Option Json) : Option Json :=
  existing.bind fun e =>
    if v.isObject && e.isObject then
      let rest := stripPaths e v
      if rest.asObject.any IndexMap.isEmpty then none else some rest
    else none

/-- **One key of a strip.** -/
theorem stripPaths_object (m d : IndexMap String Json) :
    ∃ r, stripPaths (.object m) (.object d) = .object r ∧
      ∀ k, r.get? k = (d.get? k).elim (m.get? k) fun v => stripEntry v (m.get? k) := by
  obtain ⟨dk, dn, dv⟩ := d
  refine ⟨_, rfl, fun k => ?_⟩
  have loop := IndexMap.get?_foldl (ι := {k // k ∈ dk}) (K := String) (V := Json) Subtype.val
    (fun target k =>
      match target.get? k.1 with
      | none => target
      | some existing =>
        if (dv k).isObject && existing.isObject then
          let existing := stripPaths existing (dv k)
          let target := target.insert k.1 existing
          if existing.asObject.any IndexMap.isEmpty then target.swapRemove k.1 else target
        else target.swapRemove k.1)
    (fun k e => stripEntry (dv k) e) ?_ ?_ dk.attach (by simpa using dn) m
  · by_cases hk : k ∈ dk
    · have hsome : (⟨dk, dn, dv⟩ : IndexMap String Json).get? k = some (dv ⟨k, hk⟩) :=
        IndexMap.get?_of_mem hk
      rw [hsome]
      exact loop.1 ⟨k, hk⟩ (List.mem_attach ..)
    · have hnone : (⟨dk, dn, dv⟩ : IndexMap String Json).get? k = none :=
        IndexMap.get?_eq_none_iff.mpr hk
      rw [hnone]
      exact loop.2 k (by simpa using hk)
  · -- the visited key
    intro m k
    cases hm : m.get? k.1 with
    | none => exact hm
    | some e =>
      simp only [stripEntry, Option.bind_some]
      split
      · split <;> simp
      · simp
  · -- every other key
    intro m k j hj
    cases hm : m.get? k.1 with
    | none => rfl
    | some e =>
      simp only
      split
      · split
        · rw [IndexMap.get?_swapRemove_of_ne hj, IndexMap.get?_insert_of_ne _ hj]
        · exact IndexMap.get?_insert_of_ne _ hj
      · exact IndexMap.get?_swapRemove_of_ne hj

end Doover
