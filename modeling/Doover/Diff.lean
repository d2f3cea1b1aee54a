import Doover.JsonValue

/-! # The diff engine

Diffs carry every change of an aggregate: a flush sends one, the agent applies
one, and the cache applies the ones that were sent.  `applyDiff` applies a diff
to a value and `generateDiff` computes one between two values.

* `null` in a diff deletes the key when `doDelete` is set and stores a `null`
  otherwise; a diff that is no object, or one applied to a value that is no
  object, replaces the value as it is.
* An empty sub-diff is dropped from a generated diff, and values are compared
  the way Python does (`pythonJsonEq`): `1 == 1.0` and `True == 1`.

Both loops visit the keys of one object once each, so each is described by what it
makes of one key (`get?_applyDiff`, `get?_generateDiff`); nothing later looks at
the loops again.
-/

namespace Doover
open Json

/-! ## Equality with Python's semantics -/

/-- A number viewed the way Python would: bools are 0 and 1, integers exact. -/
inductive PyNum where
  | int (n : ℤ)
  | float (x : ℚ)

def numericValue : Json → Option PyNum
  | .bool b => some (.int b.toInt)
  | .number n =>
    match n.asI64 with
    | some i => some (.int i)
    | none =>
      match n.asU64 with
      | some u => some (.int u)
      | none => some (.float n.asF64)
  | _ => none

/-- An integer and a double compare as doubles. -/
def numbersEq : PyNum → PyNum → Bool
  | .int x, .int y => x == y
  | .float x, .float y => x == y
  | .int x, .float y => (roundToF64 x : ℚ) == y
  | .float y, .int x => (roundToF64 x : ℚ) == y

mutual
/-- Whether two values are equal for Python. -/
def pythonJsonEq : Json → Json → Bool
  | .null, .null => true
  | .string x, .string y => x == y
  | .array x, .array y => x.length == y.length && pythonListEq x y
  | .object ⟨xk, _, xv⟩, .object y =>
    xk.length == y.len && xk.attach.all fun k =>
      match y.get? k.1 with
      | some yv => pythonJsonEq (xv k) yv
      | none => false
  | a, b =>
    match numericValue a, numericValue b with
    | some x, some y => numbersEq x y
    | _, _ => false
/-- The elements of two arrays, compared pairwise as far as both go. -/
def pythonListEq : List Json → List Json → Bool
  | x :: xs, y :: ys => pythonJsonEq x y && pythonListEq xs ys
  | _, _ => true
end

/-! ## Applying a diff -/

/-- Apply `diff` to `data`. -/
def applyDiff (data diff : Json) (doDelete : Bool) : Json :=
  match diff, data with
  | .object ⟨dk, _, dv⟩, .object m =>
    .object (dk.attach.foldl (fun m k =>
      match dv k with
      | .object _ =>
        -- a missing key is recursed into as an empty object
        match m.get? k.1 with
        | some existing => m.insert k.1 (applyDiff existing (dv k) doDelete)
        | none => m.insert k.1 (applyDiff (.object .empty) (dv k) doDelete)
      | .null => if doDelete then m.swapRemove k.1 else m.insert k.1 .null
      | other => m.insert k.1 other) m)
  | diff, _ => diff
termination_by structural diff

/-- What the loop of `applyDiff` makes of a key that the diff gives `v`, by the value
the data has for it. -/
def applyEntry (doDelete : Bool) (v : Json) (existing : Option Json) : Option Json :=
  match v with
  | .object d => some (applyDiff (existing.getD (.object .empty)) (.object d) doDelete)
  | .null => if doDelete then none else some .null
  | other => some other

theorem applyDiff_of_not_object {diff : Json} (h : diff.isObject = false) (data : Json)
    (doDelete : Bool) : applyDiff data diff doDelete = diff := by
  cases diff with
  | object d => cases h
  | _ => rfl

/-- Without deletions a key that is there gets the diff of its value applied. -/
theorem applyEntry_some (v existing : Json) :
    applyEntry false v (some existing) = some (applyDiff existing v false) := by
  cases v with
  | object d => rfl
  | _ => rw [applyDiff_of_not_object rfl]; rfl

/-- **One key of a diff.**  A key the diff does not have keeps its value; a key it
has gets what `applyEntry` says. -/
theorem applyDiff_object (m d : IndexMap String Json) (doDelete : Bool) :
    ∃ r, applyDiff (.object m) (.object d) doDelete = .object r ∧
      ∀ k, r.get? k = match d.get? k with
        | some v => applyEntry doDelete v (m.get? k)
        | none => m.get? k := by
  obtain ⟨dk, dn, dv⟩ := d
  refine ⟨_, rfl, fun k => ?_⟩
  have loop := IndexMap.get?_foldl (ι := {k // k ∈ dk}) (K := String) (V := Json) Subtype.val
    (fun m k =>
      match dv k with
      | .object _ =>
        match m.get? k.1 with
        | some existing => m.insert k.1 (applyDiff existing (dv k) doDelete)
        | none => m.insert k.1 (applyDiff (.object .empty) (dv k) doDelete)
      | .null => if doDelete then m.swapRemove k.1 else m.insert k.1 .null
      | other => m.insert k.1 other)
    (fun k e => applyEntry doDelete (dv k) e) ?_ ?_ dk.attach (by simpa using dn) m
  · by_cases hk : k ∈ dk
    · have hsome : (⟨dk, dn, dv⟩ : IndexMap String Json).get? k = some (dv ⟨k, hk⟩) :=
        IndexMap.get?_of_mem hk
      rw [hsome]
      exact loop.1 ⟨k, hk⟩ (List.mem_attach ..)
    · have hnone : (⟨dk, dn, dv⟩ : IndexMap String Json).get? k = none :=
        IndexMap.get?_eq_none_iff.mpr hk
      rw [hnone]
      exact loop.2 k (by simpa using hk)
  · -- the visited key
    intro m k
    cases hv : dv k with
    | object d => cases hm : m.get? k.1 <;> simp [applyEntry]
    | null => cases doDelete <;> simp [applyEntry]
    | _ => simp [applyEntry]
  · -- every other key
    intro m k j hj
    cases hv : dv k with
    | object d =>
      cases hm : m.get? k.1 <;> exact IndexMap.get?_insert_of_ne _ hj
    | null =>
      cases doDelete
      · exact IndexMap.get?_insert_of_ne _ hj
      · exact IndexMap.get?_swapRemove_of_ne hj
    | _ => exact IndexMap.get?_insert_of_ne _ hj

/-- Without deletions a diff applied to nothing is all there is. -/
theorem applyDiff_empty (diff : Json) : applyDiff (.object .empty) diff false = diff := by
  induction diff with
  | object d ih =>
    obtain ⟨r, hr, hrk⟩ := applyDiff_object .empty d false
    have hkeys : r.keys = d.keys := by
      obtain ⟨dk, dn, dv⟩ := d
      rw [applyDiff, Json.object.injEq] at hr
      rw [← hr, IndexMap.keys_foldl_insert Subtype.val]
      · exact List.attach_map_subtype_val dk
      · intro m k
        cases hv : dv k with
        | object o => cases hm : m.get? k.1 <;> exact ⟨_, rfl⟩
        | _ => exact ⟨_, rfl⟩
      · exact (List.attach_map_subtype_val dk).symm ▸ dn
      · exact fun k _ => List.not_mem_nil
    rw [hr]
    refine congrArg Json.object (IndexMap.ext hkeys fun k => ?_)
    rw [hrk k, IndexMap.get?_empty]
    cases hd : d.get? k with
    | none => rfl
    | some v =>
      cases v with
      | object o => exact congrArg some (ih k _ hd)
      | _ => rfl
  | _ => rfl

/-- So a key that is missing gets the value of the diff. -/
theorem applyEntry_none (v : Json) : applyEntry false v none = some v := by
  cases v with
  | object d => exact congrArg some (applyDiff_empty (.object d))
  | _ => rfl

/-! ## Generating a diff -/

/-- The diff that takes `old` to `new`. -/
def generateDiff (old new : Json) (doDelete : Bool) : Json :=
  match new, old with
  | .object ⟨nk, nd, nv⟩, .object oldMap =>
    let diff := nk.attach.foldl (fun diff k =>
      if (nv k).isObject then
        let oldV := (oldMap.get? k.1).getD (.object .empty)
        let d := generateDiff oldV (nv k) doDelete
        if d.asObject.any (fun m => !m.isEmpty) then diff.insert k.1 d else diff
      else if (oldMap.get? k.1).all (fun ov => !pythonJsonEq ov (nv k)) then
        diff.insert k.1 (nv k)
      else diff) IndexMap.empty
    .object (if doDelete then
      oldMap.keys.foldl (fun diff k =>
        if (IndexMap.mk nk nd nv).containsKey k then diff else diff.insert k .null) diff
    else diff)
  | new, _ => new
termination_by structural new

/-- What the loop of `generateDiff` stores for a key whose new value is `v`, by the
old value: nothing when it did not change. -/
def diffEntry (doDelete : Bool) (v : Json) (old : Option Json) : Option Json :=
  if v.isObject then
    let d := generateDiff (old.getD (.object .empty)) v doDelete
    if d.asObject.any (fun m => !m.isEmpty) then some d else none
  else if old.all (fun ov => !pythonJsonEq ov v) then some v else none

theorem generateDiff_of_not_object {new : Json} (h : new.isObject = false) (old : Json)
    (doDelete : Bool) : generateDiff old new doDelete = new := by
  cases new with
  | object d => cases h
  | _ => rfl

theorem generateDiff_from_not_object {old : Json} (h : old.isObject = false) (new : Json)
    (doDelete : Bool) : generateDiff old new doDelete = new := by
  cases old with
  | object m => cases h
  | _ => cases new <;> rfl

/-- The loop that deletes the keys only the old object has. -/
theorem get?_foldl_deletions {ks : List String} (hnd : ks.Nodup)
    (newMap diff : IndexMap String Json) (j : String) :
    (ks.foldl (fun diff k => if newMap.containsKey k then diff else diff.insert k .null)
        diff).get? j =
      if j ∈ ks ∧ newMap.get? j = none then some .null else diff.get? j := by
  have loop := IndexMap.get?_foldl (fun k : String => k)
    (fun (diff : IndexMap String Json) k =>
      if newMap.containsKey k then diff else diff.insert k .null)
    (fun k e => if newMap.containsKey k then e else some .null)
    (fun m k => by split <;> simp)
    (fun m k j hj => by
      split
      · rfl
      · exact IndexMap.get?_insert_of_ne _ hj)
    ks (by simpa using hnd) diff
  by_cases hj : j ∈ ks
  · rw [loop.1 j hj]
    cases hn : newMap.get? j <;> simp [hn, hj]
  · rw [loop.2 j (by simpa using hj), if_neg fun h => hj h.1]

/-- **One key of a generated diff.**  A key of the new object is stored when it
changed; a key only the old object has is deleted when `doDelete` is set. -/
theorem generateDiff_object (oldMap newMap : IndexMap String Json) (doDelete : Bool) :
    ∃ r, generateDiff (.object oldMap) (.object newMap) doDelete = .object r ∧
      ∀ k, r.get? k = match newMap.get? k with
        | some v => diffEntry doDelete v (oldMap.get? k)
        | none => if doDelete then (oldMap.get? k).map (fun _ => .null) else none := by
  obtain ⟨nk, nd, nv⟩ := newMap
  have loop := IndexMap.get?_foldl (ι := {k // k ∈ nk}) (K := String) (V := Json) Subtype.val
    (fun diff k =>
      if (nv k).isObject then
        let oldV := (oldMap.get? k.1).getD (.object .empty)
        let d := generateDiff oldV (nv k) doDelete
        if d.asObject.any (fun m => !m.isEmpty) then diff.insert k.1 d else diff
      else if (oldMap.get? k.1).all (fun ov => !pythonJsonEq ov (nv k)) then
        diff.insert k.1 (nv k)
      else diff)
    (fun k e => (diffEntry doDelete (nv k) (oldMap.get? k.1)).or e) ?_ ?_ nk.attach
    (by simpa using nd) .empty
  · refine ⟨_, rfl, fun k => ?_⟩
    by_cases hk : k ∈ nk
    · have hsome : (⟨nk, nd, nv⟩ : IndexMap String Json).get? k = some (nv ⟨k, hk⟩) :=
        IndexMap.get?_of_mem hk
      have hloop := loop.1 ⟨k, hk⟩ (List.mem_attach ..)
      simp only [IndexMap.get?_empty, Option.or_none] at hloop
      cases doDelete
      · rw [hsome, if_neg Bool.false_ne_true]
        exact hloop
      · simp only [if_true, get?_foldl_deletions oldMap.nodup, hsome, reduceCtorEq, and_false,
          if_false]
        exact hloop
    · have hnone : (⟨nk, nd, nv⟩ : IndexMap String Json).get? k = none :=
        IndexMap.get?_eq_none_iff.mpr hk
      have hloop := loop.2 k (by simpa using hk)
      cases doDelete
      · rw [hnone, if_neg Bool.false_ne_true]
        exact hloop
      · simp only [if_true, get?_foldl_deletions oldMap.nodup, hnone, and_true]
        split
        · rename_i hmem
          rw [IndexMap.get?_of_mem hmem, Option.map_some]
        · rename_i hmem
          rw [IndexMap.get?_eq_none_iff.mpr hmem, Option.map_none]
          exact hloop
  · -- the visited key
    intro diff k
    unfold diffEntry
    simp only
    split
    · split <;> simp
    · split <;> simp
  · -- every other key
    intro diff k j hj
    simp only
    split
    · split
      · exact IndexMap.get?_insert_of_ne _ hj
      · rfl
    · split
      · exact IndexMap.get?_insert_of_ne _ hj
      · rfl

/-- Whether a value has no entries; every value but an object has none. -/
def isEmptyObject (v : Json) : Bool := v.asObject.all IndexMap.isEmpty

end Doover
