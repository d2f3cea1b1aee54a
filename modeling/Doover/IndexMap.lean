import Mathlib.Data.List.Nodup
import Mathlib.Data.List.Perm.Subperm

/-! # Insertion-ordered maps

A map that remembers the order its keys were inserted in: the keys are a list
without repetition and every key has exactly one value.  A key occurring twice
cannot be built, so no operation has to say what it would do with one.

Two maps are equal when they list the same keys in the same order with the same
values (`IndexMap.ext`).  A loop over one map that updates another touches each
key once, so its effect is pointwise: `get?_foldl` states it once for every such
loop.
-/

/-- A map with the keys in insertion order and one value a key. -/
structure IndexMap (K V : Type) where
  /-- The keys, oldest insertion first. -/
  keys : List K
  nodup : keys.Nodup
  vals : {k // k ∈ keys} → V

namespace IndexMap
variable {K V : Type}

/-- The map without keys. -/
def empty : IndexMap K V := ⟨[], .nil, fun k => nomatch k.2⟩

/-- The number of keys. -/
def len (m : IndexMap K V) : Nat := m.keys.length

/-- Whether the map has no key. -/
def isEmpty (m : IndexMap K V) : Bool := m.keys.isEmpty

variable [DecidableEq K]

/-- The value of a key, if the map has it. -/
def get? (m : IndexMap K V) (k : K) : Option V :=
  if h : k ∈ m.keys then some (m.vals ⟨k, h⟩) else none

/-- Whether the map has the key. -/
def containsKey (m : IndexMap K V) (k : K) : Bool := decide (k ∈ m.keys)

/-- Give `k` the value `v`.  A key the map has keeps its place; a new key comes
last. -/
def insert (m : IndexMap K V) (k : K) (v : V) : IndexMap K V :=
  if hk : k ∈ m.keys then
    ⟨m.keys, m.nodup, fun j => if j.1 = k then v else m.vals j⟩
  else
    ⟨m.keys ++ [k],
      List.nodup_append.mpr ⟨m.nodup, List.nodup_singleton k, fun a ha b hb he =>
        hk (by rw [List.mem_singleton.mp hb] at he; exact he ▸ ha)⟩,
      fun j => if h : j.1 ∈ m.keys then m.vals ⟨j.1, h⟩ else v⟩

/-- The keys left when `k`, one of `ks`, is taken out and the last key moves into
its place. -/
def swapRemoveKeys (ks : List K) (k : K) : List K :=
  match ks.getLast? with
  | none => []
  | some last =>
    if last = k then ks.dropLast
    else ks.dropLast.map (fun j => if j = k then last else j)

theorem mem_swapRemoveKeys {ks : List K} (nd : ks.Nodup) {k j : K} (hk : k ∈ ks) :
    j ∈ swapRemoveKeys ks k ↔ j ∈ ks ∧ j ≠ k := by
  unfold swapRemoveKeys
  cases hl : ks.getLast? with
  | none => simp [List.getLast?_eq_none_iff.mp hl] at hk
  | some last =>
    obtain ⟨init, rfl⟩ := List.getLast?_eq_some_iff.mp hl
    have hlast : last ∉ init := fun h =>
      (List.nodup_append.mp nd).2.2 last h last (List.mem_singleton_self last) rfl
    simp only [List.dropLast_concat, List.mem_append, List.mem_singleton] at hk ⊢
    by_cases he : last = k
    · subst he
      rw [if_pos rfl]
      exact ⟨fun h => ⟨Or.inl h, fun hj => hlast (hj ▸ h)⟩, fun h => h.1.resolve_right h.2⟩
    · rw [if_neg he, List.mem_map]
      constructor
      · rintro ⟨a, ha, rfl⟩
        split
        · exact ⟨Or.inr rfl, he⟩
        · exact ⟨Or.inl ha, ‹_›⟩
      · rintro ⟨hj | rfl, hne⟩
        · exact ⟨j, hj, if_neg hne⟩
        · exact ⟨k, hk.resolve_right (Ne.symm he), if_pos rfl⟩

theorem nodup_swapRemoveKeys {ks : List K} (nd : ks.Nodup) (k : K) :
    (swapRemoveKeys ks k).Nodup := by
  unfold swapRemoveKeys
  cases hl : ks.getLast? with
  | none => exact .nil
  | some last =>
    obtain ⟨init, rfl⟩ := List.getLast?_eq_some_iff.mp hl
    obtain ⟨hinit, -, hlast⟩ := List.nodup_append.mp nd
    simp only [List.dropLast_concat]
    split
    · exact hinit
    · -- `last` is new among the keys before it, so renaming `k` to it repeats nothing
      refine hinit.map_on fun a ha b hb he => ?_
      grind

/-- Take `k` out.  The last key moves into its place. -/
def swapRemove (m : IndexMap K V) (k : K) : IndexMap K V :=
  if hk : k ∈ m.keys then
    ⟨swapRemoveKeys m.keys k, nodup_swapRemoveKeys m.nodup k,
      fun j => m.vals ⟨j.1, ((mem_swapRemoveKeys m.nodup hk).mp j.2).1⟩⟩
  else m

/-- The map of a list of entries, a later entry for a key replacing an earlier
one. -/
def ofList (l : List (K × V)) : IndexMap K V :=
  l.foldl (fun m e => m.insert e.1 e.2) empty

/-! ## Lookups -/

theorem get?_eq_some_iff {m : IndexMap K V} {k : K} {v : V} :
    m.get? k = some v ↔ ∃ h : k ∈ m.keys, m.vals ⟨k, h⟩ = v := by
  unfold get?
  split
  · rename_i h
    simp [h]
  · rename_i h
    simp [h]

theorem get?_of_mem {m : IndexMap K V} {k : K} (h : k ∈ m.keys) :
    m.get? k = some (m.vals ⟨k, h⟩) := get?_eq_some_iff.mpr ⟨h, rfl⟩

theorem get?_eq_none_iff {m : IndexMap K V} {k : K} : m.get? k = none ↔ k ∉ m.keys := by
  unfold get?
  split <;> simp_all

theorem mem_keys_iff {m : IndexMap K V} {k : K} : k ∈ m.keys ↔ ∃ v, m.get? k = some v := by
  constructor
  · exact fun h => ⟨_, get?_of_mem h⟩
  · rintro ⟨v, h⟩
    exact (get?_eq_some_iff.mp h).1

@[simp] theorem containsKey_iff {m : IndexMap K V} {k : K} :
    m.containsKey k = true ↔ ∃ v, m.get? k = some v := by
  rw [containsKey, decide_eq_true_iff, mem_keys_iff]

/-- Maps are equal when they list the same keys in the same order and answer
every lookup alike. -/
theorem ext {m n : IndexMap K V} (hk : m.keys = n.keys) (hg : ∀ k, m.get? k = n.get? k) :
    m = n := by
  obtain ⟨ks, nd, vs⟩ := m
  obtain ⟨ks', nd', vs'⟩ := n
  obtain rfl : ks = ks' := hk
  have hv : vs = vs' := funext fun ⟨k, h⟩ => by
    have := hg k
    rw [get?_of_mem h, get?_of_mem h] at this
    exact Option.some.inj this
  rw [hv]

@[simp] theorem get?_empty (k : K) : (empty : IndexMap K V).get? k = none :=
  get?_eq_none_iff.mpr (List.not_mem_nil)

theorem isEmpty_iff {m : IndexMap K V} : m.isEmpty = true ↔ ∀ k, m.get? k = none := by
  rw [isEmpty, List.isEmpty_iff, List.eq_nil_iff_forall_not_mem]
  exact forall_congr' fun k => get?_eq_none_iff.symm

/-- A map that is not empty has a key. -/
theorem isEmpty_eq_false_iff {m : IndexMap K V} :
    m.isEmpty = false ↔ ∃ k v, m.get? k = some v := by
  rw [← Bool.not_eq_true, isEmpty_iff, not_forall]
  exact exists_congr fun k => Option.ne_none_iff_exists'

omit [DecidableEq K] in
/-- Maps with the same keys have as many of them. -/
theorem len_eq_of_keys {W : Type} {m : IndexMap K V} {n : IndexMap K W}
    (h : ∀ k, k ∈ m.keys ↔ k ∈ n.keys) : m.len = n.len :=
  ((List.perm_ext_iff_of_nodup m.nodup n.nodup).mpr h).length_eq

/-! ## Insertion -/

@[simp] theorem get?_insert_self (m : IndexMap K V) (k : K) (v : V) :
    (m.insert k v).get? k = some v := by
  unfold insert
  split
  · rename_i hk
    exact get?_eq_some_iff.mpr ⟨hk, by simp⟩
  · rename_i hk
    exact get?_eq_some_iff.mpr ⟨by simp, by simp [hk]⟩

theorem get?_insert_of_ne {m : IndexMap K V} {k j : K} (v : V) (h : j ≠ k) :
    (m.insert k v).get? j = m.get? j := by
  unfold insert
  split
  · simp [get?, h]
  · by_cases hj : j ∈ m.keys <;> simp [get?, h, hj]

theorem get?_insert (m : IndexMap K V) (k j : K) (v : V) :
    (m.insert k v).get? j = if j = k then some v else m.get? j := by
  split
  · rename_i h
    rw [h, get?_insert_self]
  · rename_i h
    exact get?_insert_of_ne v h

theorem keys_insert_of_mem {m : IndexMap K V} {k : K} (v : V) (h : k ∈ m.keys) :
    (m.insert k v).keys = m.keys := by
  unfold insert
  rw [dif_pos h]

/-- Putting a key to what it is changes nothing. -/
theorem insert_of_get? {m : IndexMap K V} {k : K} {v : V} (h : m.get? k = some v) :
    m.insert k v = m := by
  refine ext (keys_insert_of_mem v (mem_keys_iff.mpr ⟨v, h⟩)) fun j => ?_
  rw [get?_insert]
  split
  · rename_i hj
    rw [hj, h]
  · rfl

theorem keys_insert_of_not_mem {m : IndexMap K V} {k : K} (v : V) (h : k ∉ m.keys) :
    (m.insert k v).keys = m.keys ++ [k] := by
  unfold insert
  rw [dif_neg h]

/-- The map of a list has exactly the keys of its entries. -/
theorem mem_keys_ofList {l : List (K × V)} {k : K} :
    k ∈ (ofList l).keys ↔ k ∈ l.map Prod.fst := by
  have hfold : ∀ m : IndexMap K V,
      k ∈ (l.foldl (fun m e => m.insert e.1 e.2) m).keys ↔ k ∈ m.keys ∨ k ∈ l.map Prod.fst := by
    induction l with
    | nil => simp
    | cons e l ih =>
      intro m
      have hins : k ∈ (m.insert e.1 e.2).keys ↔ k ∈ m.keys ∨ k = e.1 := by
        rw [mem_keys_iff, mem_keys_iff, get?_insert]
        by_cases he : k = e.1 <;> simp [he]
      rw [List.foldl_cons, ih, hins, List.map_cons, List.mem_cons, or_assoc]
  have hempty : k ∉ (empty : IndexMap K V).keys := List.not_mem_nil
  rw [ofList, hfold, or_iff_right hempty]

/-- What the map of a list has is in the list. -/
theorem mem_of_get?_ofList {l : List (K × V)} {k : K} {v : V} (h : (ofList l).get? k = some v) :
    (k, v) ∈ l := by
  have hfold : ∀ m : IndexMap K V, (l.foldl (fun m e => m.insert e.1 e.2) m).get? k = some v →
      m.get? k = some v ∨ (k, v) ∈ l := by
    clear h
    induction l with
    | nil => exact fun m h => .inl h
    | cons e l ih =>
      intro m h
      rcases ih _ h with h | h
      · rw [get?_insert] at h
        split at h
        · rename_i hk
          cases h
          exact .inr (hk ▸ List.mem_cons_self)
        · exact .inl h
      · exact .inr (List.mem_cons_of_mem e h)
  refine (hfold empty h).resolve_left fun h => ?_
  rw [get?_empty] at h
  cases h

/-! ## Removal -/

@[simp] theorem get?_swapRemove_self (m : IndexMap K V) (k : K) :
    (m.swapRemove k).get? k = none := by
  unfold swapRemove
  split
  · rename_i hk
    exact get?_eq_none_iff.mpr fun h => ((mem_swapRemoveKeys m.nodup hk).mp h).2 rfl
  · rename_i hk
    exact get?_eq_none_iff.mpr hk

theorem get?_swapRemove_of_ne {m : IndexMap K V} {k j : K} (h : j ≠ k) :
    (m.swapRemove k).get? j = m.get? j := by
  unfold swapRemove
  split
  · rename_i hk
    have hmem := mem_swapRemoveKeys m.nodup (j := j) hk
    by_cases hj : j ∈ m.keys
    · rw [get?_of_mem hj]
      exact get?_eq_some_iff.mpr ⟨hmem.mpr ⟨hj, h⟩, rfl⟩
    · rw [get?_eq_none_iff.mpr hj]
      exact get?_eq_none_iff.mpr fun hx => hj (hmem.mp hx).1
  · rfl

/-! ## Loops over the keys of one map -/

/-- A loop that visits distinct keys, each visit changing the value of its own key
only (`step` rewrites that value by `u`), rewrites exactly the visited keys. -/
theorem get?_foldl {ι : Type} (key : ι → K) (step : IndexMap K V → ι → IndexMap K V)
    (u : ι → Option V → Option V)
    (hself : ∀ m i, (step m i).get? (key i) = u i (m.get? (key i)))
    (hother : ∀ m i j, j ≠ key i → (step m i).get? j = m.get? j)
    (is : List ι) (hnd : (is.map key).Nodup) (m : IndexMap K V) :
    (∀ i ∈ is, (is.foldl step m).get? (key i) = u i (m.get? (key i))) ∧
      ∀ j, j ∉ is.map key → (is.foldl step m).get? j = m.get? j := by
  induction is generalizing m with
  | nil => exact ⟨fun i hi => absurd hi (List.not_mem_nil), fun _ _ => rfl⟩
  | cons i is ih =>
    rw [List.map_cons, List.nodup_cons] at hnd
    obtain ⟨hrest, hfresh⟩ := ih hnd.2 (step m i)
    refine ⟨?_, ?_⟩
    · intro x hx
      rcases List.mem_cons.mp hx with rfl | hx
      · rw [List.foldl_cons, hfresh _ hnd.1, hself]
      · have hne : key x ≠ key i := fun he => hnd.1 (he ▸ List.mem_map_of_mem hx)
        rw [List.foldl_cons, hrest x hx, hother _ _ _ hne]
    · intro j hj
      rw [List.map_cons, List.mem_cons, not_or] at hj
      rw [List.foldl_cons, hfresh j hj.2, hother _ _ _ hj.1]

/-- A loop that inserts keys the map does not have puts them last, in their order. -/
theorem keys_foldl_insert {ι : Type} (key : ι → K) (step : IndexMap K V → ι → IndexMap K V)
    (hstep : ∀ m i, ∃ v, step m i = m.insert (key i) v) (is : List ι)
    (hnd : (is.map key).Nodup) (m : IndexMap K V) (hnew : ∀ i ∈ is, key i ∉ m.keys) :
    (is.foldl step m).keys = m.keys ++ is.map key := by
  induction is generalizing m with
  | nil => simp
  | cons i is ih =>
    rw [List.map_cons, List.nodup_cons] at hnd
    obtain ⟨v, hv⟩ := hstep m i
    have hkeys : (step m i).keys = m.keys ++ [key i] := by
      rw [hv, keys_insert_of_not_mem v (hnew i List.mem_cons_self)]
    rw [List.foldl_cons, ih hnd.2, hkeys, List.map_cons, List.append_assoc, List.singleton_append]
    intro j hj
    rw [hkeys, List.mem_append, List.mem_singleton, not_or]
    exact ⟨hnew j (List.mem_cons_of_mem i hj), fun he => hnd.1 (he ▸ List.mem_map_of_mem hj)⟩

/-! ## Entries -/

section Entries
variable {W : Type}

def map (f : V → W) (m : IndexMap K V) : IndexMap K W := ⟨m.keys, m.nodup, fun k => f (m.vals k)⟩

theorem get?_map (f : V → W) (m : IndexMap K V) (k : K) : (m.map f).get? k = (m.get? k).map f := by
  by_cases h : k ∈ m.keys
  · rw [get?_of_mem h, get?_of_mem (m := m.map f) h]
    rfl
  · rw [get?_eq_none_iff.mpr h, (get?_eq_none_iff (m := m.map f)).mpr h]
    rfl

/-- The entries, in the order of the keys. -/
def entries (m : IndexMap K V) : List (K × V) := m.keys.attach.map fun k => (k.1, m.vals k)

omit [DecidableEq K] in
theorem map_fst_entries (m : IndexMap K V) : m.entries.map Prod.fst = m.keys := by
  rw [entries, List.map_map]
  exact List.attach_map_subtype_val m.keys

omit [DecidableEq K] in
theorem entries_map (f : V → W) (m : IndexMap K V) :
    (m.map f).entries = m.entries.map fun e => (e.1, f e.2) := by
  rw [entries, entries, List.map_map]
  rfl

theorem mem_entries {m : IndexMap K V} {e : K × V} : e ∈ m.entries ↔ m.get? e.1 = some e.2 := by
  rw [entries, List.mem_map, get?_eq_some_iff]
  constructor
  · rintro ⟨k, -, rfl⟩
    exact ⟨k.2, rfl⟩
  · rintro ⟨hk, hv⟩
    exact ⟨⟨e.1, hk⟩, List.mem_attach .., Prod.ext rfl hv⟩

/-- A map is the one of its entries. -/
theorem ofList_entries (m : IndexMap K V) : ofList m.entries = m := by
  have hnd : (m.entries.map Prod.fst).Nodup := by
    rw [map_fst_entries]
    exact m.nodup
  have hget := get?_foldl (K := K) (V := V) Prod.fst (fun m e => m.insert e.1 e.2)
    (fun e _ => some e.2) (fun m e => get?_insert_self m e.1 e.2)
    (fun m e j h => get?_insert_of_ne e.2 h) m.entries hnd empty
  refine ext ?_ fun k => ?_
  · rw [ofList, keys_foldl_insert Prod.fst _ (fun m e => ⟨e.2, rfl⟩) m.entries hnd empty
      (fun e _ => List.not_mem_nil), map_fst_entries]
    exact List.nil_append _
  · cases hk : m.get? k with
    | some v => exact hget.1 (k, v) (mem_entries.mpr hk)
    | none =>
      have hnew : k ∉ m.entries.map Prod.fst := by
        rw [map_fst_entries]
        exact get?_eq_none_iff.mp hk
      exact (hget.2 k hnew).trans (get?_empty k)

/-- A list without a repeated key is the entries of its map. -/
theorem entries_ofList {l : List (K × V)} (h : (l.map Prod.fst).Nodup) :
    (ofList l).entries = l := by
  have hkeys : (ofList l).keys = l.map Prod.fst := by
    rw [ofList, keys_foldl_insert Prod.fst _ (fun m e => ⟨e.2, rfl⟩) l h empty
      (fun e _ => List.not_mem_nil)]
    exact List.nil_append _
  have hlength : (ofList l).entries.length = l.length := by
    rw [← List.length_map (f := Prod.fst), map_fst_entries, hkeys, List.length_map]
  refine List.ext_getElem hlength fun i hi hi' => ?_
  -- both entries have the key of this place, and the list has that key once
  have hfst : (ofList l).entries[i].1 = l[i].1 := by
    have := congrArg (·[i]?) ((map_fst_entries (ofList l)).trans hkeys)
    simpa [List.getElem?_eq_getElem hi, List.getElem?_eq_getElem hi'] using this
  have hmem : (ofList l).entries[i] ∈ l :=
    mem_of_get?_ofList (mem_entries.mp (List.getElem_mem hi))
  obtain ⟨j, hj, hji⟩ := List.getElem_of_mem hmem
  have hplace : j = i := by
    have hj' : j < (l.map Prod.fst).length := by
      rwa [List.length_map]
    have hi'' : i < (l.map Prod.fst).length := by
      rwa [List.length_map]
    have hsame : (l.map Prod.fst)[j] = (l.map Prod.fst)[i] := by
      rw [List.getElem_map, List.getElem_map, hji, hfst]
    exact h.getElem_inj_iff.mp hsame
  subst hplace
  exact hji.symm

/-- The map of a list with a repeated key has fewer keys than the list has entries. -/
theorem nodup_of_length_keys_ofList {l : List (K × V)} (h : (ofList l).keys.length = l.length) :
    (l.map Prod.fst).Nodup := by
  have hsubperm : (ofList l).keys.Subperm (l.map Prod.fst) :=
    List.subperm_of_subset (ofList l).nodup fun k hk => mem_keys_ofList.mp hk
  have hlength : (l.map Prod.fst).length = (ofList l).keys.length := by
    rw [List.length_map, h]
  have hperm := hsubperm.perm_of_length_le (Nat.le_of_eq hlength)
  exact hperm.nodup_iff.mp (ofList l).nodup

end Entries

/-! ## Keeping some keys -/

section Retain

def retain (m : IndexMap K V) (p : K → Bool) : IndexMap K V :=
  ⟨m.keys.filter p, m.nodup.filter p, fun k => m.vals ⟨k.1, List.mem_of_mem_filter k.2⟩⟩

variable {p : K → Bool} {k : K}

theorem get?_retain (m : IndexMap K V) (p : K → Bool) (k : K) :
    (m.retain p).get? k = if p k then m.get? k else none := by
  by_cases hk : k ∈ (m.retain p).keys
  · obtain ⟨hmem, hp⟩ := List.mem_filter.mp hk
    rw [get?_of_mem hk, if_pos hp, get?_of_mem hmem]
    rfl
  · rw [get?_eq_none_iff.mpr hk]
    split
    · rename_i hp
      exact (get?_eq_none_iff.mpr fun hmem => hk (List.mem_filter.mpr ⟨hmem, hp⟩)).symm
    · rfl

theorem retain_insert_of_neg (m : IndexMap K V) (v : V) (h : p k = false) :
    (m.insert k v).retain p = m.retain p := by
  refine ext ?_ fun j => ?_
  · show (m.insert k v).keys.filter p = m.keys.filter p
    by_cases hk : k ∈ m.keys
    · rw [keys_insert_of_mem v hk]
    · rw [keys_insert_of_not_mem v hk, List.filter_append, List.filter_singleton, h]
      exact List.append_nil _
  · rw [get?_retain, get?_retain, get?_insert]
    by_cases hj : j = k
    · rw [hj, h]
      rfl
    · rw [if_neg hj]

theorem retain_insert_of_pos (m : IndexMap K V) (v : V) (h : p k = true) :
    (m.insert k v).retain p = (m.retain p).insert k v := by
  refine ext ?_ fun j => ?_
  · show (m.insert k v).keys.filter p = _
    by_cases hk : k ∈ m.keys
    · have hretained : k ∈ (m.retain p).keys := List.mem_filter.mpr ⟨hk, h⟩
      rw [keys_insert_of_mem v hk, keys_insert_of_mem v hretained]
      rfl
    · have hretained : k ∉ (m.retain p).keys := fun hmem => hk (List.mem_of_mem_filter hmem)
      rw [keys_insert_of_not_mem v hk, keys_insert_of_not_mem v hretained, List.filter_append,
        List.filter_singleton, h]
      rfl
  · rw [get?_retain, get?_insert, get?_insert, get?_retain]
    by_cases hj : j = k
    · rw [if_pos hj, if_pos hj, hj, if_pos h]
    · rw [if_neg hj, if_neg hj]

theorem retain_eq_self {m : IndexMap K V} (h : ∀ k ∈ m.keys, p k = true) : m.retain p = m := by
  refine ext (List.filter_eq_self.mpr h) fun j => ?_
  rw [get?_retain]
  by_cases hj : j ∈ m.keys
  · rw [if_pos (h j hj)]
  · rw [get?_eq_none_iff.mpr hj, ite_self]

end Retain
end IndexMap
