import Doover.KeyPath

/-! # How the agent merges a write

The agent merges an aggregate write into what it has: objects merge key by key, anything
else replaces.  A `null` is stored like any other value.
-/

namespace Doover
open Json

/-- Merge `diff` into `base`. -/
def merge (base diff : Json) : Json :=
  match diff, base with
  | .object ⟨dk, _, dv⟩, .object m =>
    .object (dk.attach.foldl (fun m k =>
      match m.get? k.1 with
      | some existing =>
        if existing.isObject && (dv k).isObject then m.insert k.1 (merge existing (dv k))
        else m.insert k.1 (dv k)
      | none => m.insert k.1 (dv k)) m)
  | diff, _ => diff
termination_by structural diff

/-- What the loop of `merge` makes of a key of the write, by the value held for it. -/
def mergeEntry (existing : Option Json) (v : Json) : Json :=
  match existing with
  | some existing => if existing.isObject && v.isObject then merge existing v else v
  | none => v

theorem merge_of_not_object {base diff : Json} (h : base.isObject = false ∨ diff.isObject = false) :
    merge base diff = diff := by
  cases diff with
  | object d =>
    cases base with
    | object m => rcases h with h | h <;> cases h
    | _ => rfl
  | _ => rfl

/-- **One key of a merge.** -/
theorem merge_object (m d : IndexMap String Json) :
    ∃ r, merge (.object m) (.object d) = .object r ∧
      ∀ k, r.get? k = ((d.get? k).map (mergeEntry (m.get? k))).or (m.get? k) := by
  obtain ⟨dk, dn, dv⟩ := d
  refine ⟨_, rfl, fun k => ?_⟩
  have loop := IndexMap.get?_foldl (ι := {k // k ∈ dk}) (K := String) (V := Json) Subtype.val
    (fun m k =>
      match m.get? k.1 with
      | some existing =>
        if existing.isObject && (dv k).isObject then m.insert k.1 (merge existing (dv k))
        else m.insert k.1 (dv k)
      | none => m.insert k.1 (dv k))
    (fun k e => some (mergeEntry e (dv k))) ?_ ?_ dk.attach (by simpa using dn) m
  · by_cases hk : k ∈ dk
    · have hsome : (⟨dk, dn, dv⟩ : IndexMap String Json).get? k = some (dv ⟨k, hk⟩) :=
        IndexMap.get?_of_mem hk
      rw [hsome]
      exact loop.1 ⟨k, hk⟩ (List.mem_attach ..)
    · have hnone : (⟨dk, dn, dv⟩ : IndexMap String Json).get? k = none :=
        IndexMap.get?_eq_none_iff.mpr hk
      rw [hnone]
      exact loop.2 k (by simpa using hk)
  · -- the visited key
    intro m k
    cases hm : m.get? k.1 with
    | none => simp [mergeEntry]
    | some existing =>
      simp only [mergeEntry]
      split <;> exact IndexMap.get?_insert_self ..
  · -- every other key
    intro m k j hj
    cases hm : m.get? k.1 with
    | none => exact IndexMap.get?_insert_of_ne _ hj
    | some existing =>
      simp only
      split <;> exact IndexMap.get?_insert_of_ne _ hj

/-- **The agent merges as the diff engine applies without deletions.** -/
theorem merge_eq_applyDiff (base diff : Json) : merge base diff = applyDiff base diff false := by
  induction diff generalizing base with
  | object d ih =>
    cases base with
    | object m =>
      obtain ⟨dk, dn, dv⟩ := d
      rw [merge, applyDiff]
      refine congrArg (fun step => Json.object (List.foldl step m dk.attach))
        (funext fun m => funext fun k => ?_)
      have hk : (⟨dk, dn, dv⟩ : IndexMap String Json).get? k.1 = some (dv k) :=
        IndexMap.get?_of_mem k.2
      cases hm : m.get? k.1 with
      | none =>
        cases hv : dv k with
        | object o => simp only [applyDiff_empty]
        | _ => rfl
      | some existing =>
        cases hv : dv k with
        | object o =>
          cases existing with
          | object e =>
            have hrec := ih k.1 (dv k) hk (.object e)
            rw [hv] at hrec
            exact congrArg (m.insert k.1) hrec
          | _ => rfl
        | _ => cases existing <;> rfl
    | _ => rfl
  | _ => cases base <;> rfl

/-- Merging an object into one that has its keys adds none. -/
theorem keys_merge {m d r : IndexMap String Json} (hd : ∀ k ∈ d.keys, k ∈ m.keys)
    (hr : merge (.object m) (.object d) = .object r) : r.keys = m.keys := by
  obtain ⟨dk, dn, dv⟩ := d
  have loop : ∀ (ks : List {k // k ∈ dk}) (m' : IndexMap String Json), m'.keys = m.keys →
      (ks.foldl (fun m k =>
        match m.get? k.1 with
        | some existing =>
          if existing.isObject && (dv k).isObject then m.insert k.1 (merge existing (dv k))
          else m.insert k.1 (dv k)
        | none => m.insert k.1 (dv k)) m').keys = m.keys := by
    intro ks
    induction ks with
    | nil => exact fun m' h => h
    | cons k ks ih =>
      intro m' h
      have hk : k.1 ∈ m'.keys := h ▸ hd k.1 k.2
      rw [List.foldl_cons]
      apply ih
      cases m'.get? k.1 with
      | none => exact (IndexMap.keys_insert_of_mem _ hk).trans h
      | some existing =>
        simp only
        split <;> exact (IndexMap.keys_insert_of_mem _ hk).trans h
  rw [merge, Json.object.injEq] at hr
  rw [← hr]
  exact loop _ m rfl

/-- A value merged into itself stays what it is. -/
theorem merge_self (v : Json) : merge v v = v := by
  induction v with
  | object m ih =>
    obtain ⟨r, hr, hk⟩ := merge_object m m
    rw [hr, Json.object.injEq]
    refine IndexMap.ext (keys_merge (fun _ h => h) hr) fun k => ?_
    rw [hk k]
    cases hm : m.get? k with
    | none => rfl
    | some v =>
      rw [Option.map_some, Option.some_or, mergeEntry, ih k v hm, ite_self]
  | _ => rfl

theorem mergeEntry_some (base v : Json) : mergeEntry (some base) v = merge base v := by
  rw [mergeEntry]
  split
  · rfl
  · rename_i h
    refine (merge_of_not_object ?_).symm
    rwa [Bool.and_eq_true, not_and_or, Bool.not_eq_true, Bool.not_eq_true] at h

/-- One key of a merge, whatever is merged into. -/
theorem get?_merge {d : IndexMap String Json} (base : Json) (k : String) :
    (merge base (.object d)).get? k =
      ((d.get? k).map (mergeEntry (base.get? k))).or (base.get? k) := by
  cases base with
  | object m =>
    obtain ⟨r, hr, hk⟩ := merge_object m d
    rw [hr, get?_object, hk k]
    rfl
  | _ =>
    show d.get? k = ((d.get? k).map (mergeEntry none)).or none
    cases d.get? k <;> rfl

/-- **A write along a path.**  It replaces what is at the path, unless both are objects. -/
theorem lookup_merge_construct {p : List String} {v : Json} {base : Json}
    (h : v.isObject = false ∨ ∀ c, base.lookup p = some c → c.isObject = false) :
    (merge base (KeyPath.construct ⟨p⟩ v)).lookup p = some v := by
  induction p generalizing base with
  | nil =>
    rw [lookup_nil, Option.some.injEq]
    exact merge_of_not_object (h.symm.imp_left fun hbase => hbase base (lookup_nil base))
  | cons k p ih =>
    rw [KeyPath.construct_cons, lookup_cons, get?_merge, IndexMap.get?_insert_self, Option.map_some,
      Option.some_or, Option.bind_some]
    cases hk : base.get? k with
    | none => exact KeyPath.lookup_construct p v
    | some existing =>
      rw [mergeEntry]
      split
      · refine ih (h.imp_right fun hbase c hc => hbase c ?_)
        rw [lookup_cons, hk, Option.bind_some, hc]
      · exact KeyPath.lookup_construct p v

/-- **Frame.**  A write that misses a path leaves it as it was. -/
theorem lookup_merge_of_misses {diff : Json} {p : List String} (h : diff.Misses p) (base : Json) :
    (merge base diff).lookup p = base.lookup p := by
  induction p generalizing diff base with
  | nil => exact absurd h (not_misses_nil diff)
  | cons k p ih =>
    obtain ⟨d, rfl⟩ := exists_of_isObject h.isObject
    rw [misses_object_cons] at h
    rw [lookup_cons, lookup_cons, get?_merge]
    cases hd : d.get? k with
    | none => rfl
    | some v =>
      have hv := h v hd
      rw [Option.map_some, Option.some_or, Option.bind_some]
      cases hk : base.get? k with
      | none => exact hv.lookup
      | some existing =>
        rw [mergeEntry, hv.isObject, Bool.and_true, Option.bind_some]
        split
        · exact ih hv existing
        · rename_i hleaf
          rw [hv.lookup]
          cases p with
          | nil => exact absurd hv (not_misses_nil v)
          | cons k' p =>
            exact (lookup_cons_of_not_isObject ((Bool.not_eq_true _).mp hleaf) k' p).symm

/-- **Hit.**  A write that reaches a path merges what it has there into what was there;
one that is cut off above the path leaves nothing. -/
theorem lookup_merge_of_not_misses {diff : Json} {p : List String} (h : ¬ diff.Misses p)
    (base : Json) :
    (merge base diff).lookup p = (diff.lookup p).map (mergeEntry (base.lookup p)) := by
  induction p generalizing diff base with
  | nil => rw [lookup_nil, lookup_nil, lookup_nil, Option.map_some, mergeEntry_some]
  | cons k p ih =>
    cases diff with
    | object d =>
      rw [misses_object_cons] at h
      push Not at h
      obtain ⟨v, hd, hv⟩ := h
      rw [lookup_cons, get?_merge, lookup_object_cons, lookup_cons base, hd, Option.map_some,
        Option.some_or, Option.bind_some, Option.bind_some]
      cases hk : base.get? k with
      | none => exact (Option.map_id' ..).symm
      | some existing =>
        rw [mergeEntry_some]
        exact ih hv existing
    | _ =>
      rw [merge_of_not_object (Or.inr rfl), lookup_cons_of_not_isObject rfl]
      rfl

end Doover
