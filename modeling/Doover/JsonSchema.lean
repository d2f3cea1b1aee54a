import Doover.JsonEquality

/-! # Validation by a JSON Schema

The keywords an `if` is made of, with their draft 2020-12 meaning: `const`, `enum`,
`required` and `properties`.  A property that is absent matches, and every other keyword is
an annotation.
-/

namespace Doover
namespace Json

/-- The items of a keyword's array. -/
def items (keyword : Option Json) : List Json := (keyword.bind asArray).getD []

/-- The strings among them. -/
def strings (keyword : Option Json) : List String := (items keyword).filterMap asStr

mutual
/-- Whether the schema accepts the value. -/
def validates : Json → Json → Bool
  | .bool b, _ => b
  | .object ⟨ks, _, vs⟩, v =>
    ks.attach.all fun k =>
      if k.1 = "const" then schemaEq v (vs k)
      -- an `enum` that is no array lists nothing
      else if k.1 = "enum" then (items (some (vs k))).any fun choice => schemaEq v choice
      else if k.1 = "required" then
        !v.isObject || (strings (some (vs k))).all fun name => (v.get? name).isSome
      else if k.1 = "properties" then validatesProperties (vs k) v
      else true
  | _, _ => true
termination_by structural schema => schema
def validatesProperties : Json → Json → Bool
  | .object ⟨ks, _, vs⟩, v =>
    ks.attach.all fun k =>
      match v.get? k.1 with
      | some property => validates (vs k) property
      -- an absent property matches
      | none => true
  | _, _ => true
termination_by structural properties => properties
end

/-- A schema accepts what each of its keywords does. -/
theorem validates_object_iff {m : IndexMap String Json} {v : Json} :
    validates (.object m) v = true ↔
      (∀ c, m.get? "const" = some c → schemaEq v c = true) ∧
      (∀ c, m.get? "enum" = some c → ∃ choice ∈ items (some c), schemaEq v choice = true) ∧
      (∀ c, m.get? "required" = some c → v.isObject = true →
        ∀ name ∈ strings (some c), (v.get? name).isSome = true) ∧
      (∀ c, m.get? "properties" = some c → validatesProperties c v = true) := by
  obtain ⟨ks, nd, vs⟩ := m
  rw [validates, List.all_eq_true]
  constructor
  · intro h
    have hkey : ∀ {k : String} {c : Json}, (⟨ks, nd, vs⟩ : IndexMap String Json).get? k = some c →
        ∃ hk : k ∈ ks, vs ⟨k, hk⟩ = c := fun hc => IndexMap.get?_eq_some_iff.mp hc
    refine ⟨?_, ?_, ?_, ?_⟩
    · intro c hc
      obtain ⟨hk, rfl⟩ := hkey hc
      simpa using h ⟨_, hk⟩ (List.mem_attach ..)
    · intro c hc
      obtain ⟨hk, rfl⟩ := hkey hc
      simpa using h ⟨_, hk⟩ (List.mem_attach ..)
    · intro c hc hv
      obtain ⟨hk, rfl⟩ := hkey hc
      simpa [hv] using h ⟨_, hk⟩ (List.mem_attach ..)
    · intro c hc
      obtain ⟨hk, rfl⟩ := hkey hc
      simpa using h ⟨_, hk⟩ (List.mem_attach ..)
  · rintro ⟨hconst, henum, hrequired, hproperties⟩ ⟨k, hk⟩ -
    have hget := IndexMap.get?_of_mem (m := ⟨ks, nd, vs⟩) hk
    simp only
    split
    · rename_i h
      subst h
      exact hconst _ hget
    · split
      · rename_i h
        subst h
        exact List.any_eq_true.mpr (henum _ hget)
      · split
        · rename_i h
          subst h
          cases hv : v.isObject with
          | false => rfl
          | true => exact List.all_eq_true.mpr (hrequired _ hget hv)
        · split
          · rename_i h
            subst h
            exact hproperties _ hget
          · rfl

theorem validatesProperties_object_iff {m : IndexMap String Json} {v : Json} :
    validatesProperties (.object m) v = true ↔
      ∀ k schema, m.get? k = some schema → ∀ property, v.get? k = some property →
        validates schema property = true := by
  obtain ⟨ks, nd, vs⟩ := m
  rw [validatesProperties, List.all_eq_true]
  constructor
  · intro h k schema hk property hproperty
    obtain ⟨hmem, rfl⟩ := IndexMap.get?_eq_some_iff.mp hk
    simpa only [hproperty] using h ⟨k, hmem⟩ (List.mem_attach ..)
  · intro h k _
    cases hproperty : v.get? k.1 with
    | none => rfl
    | some property => exact h k.1 (vs k) (IndexMap.get?_of_mem k.2) property hproperty

end Json
end Doover
