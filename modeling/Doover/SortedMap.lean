import Mathlib.Data.Finmap
import Mathlib.Data.Finset.Sort
import Mathlib.Data.List.Sort
import Doover.IndexMap

/-! # Sorted maps

A map whose keys are listed in their order, so that it is told by its lookups alone
(`SortedMap.ext`).  A map in any other order can be sorted (`ofIndexMap`), and so can one that
has none, a `Finmap` (`ofFinmap`).  Either is the map of its entries (`ofList_entries`,
`finmapOfList_entries`).
-/

/-- A map with its keys in order and one value a key. -/
structure SortedMap (K V : Type) [LinearOrder K] where
  keys : List K
  sorted : keys.Pairwise (· < ·)
  vals : {k // k ∈ keys} → V

namespace SortedMap
variable {K V W : Type} [LinearOrder K]

/-- The same map, its order being that of the keys. -/
def toIndexMap (m : SortedMap K V) : IndexMap K V := ⟨m.keys, m.sorted.imp ne_of_lt, m.vals⟩

def get? (m : SortedMap K V) (k : K) : Option V := m.toIndexMap.get? k

theorem ext {m n : SortedMap K V} (h : ∀ k, m.get? k = n.get? k) : m = n := by
  have hkeys : m.keys = n.keys := by
    refine m.sorted.eq_of_mem_iff n.sorted fun k => ?_
    have hm := IndexMap.mem_keys_iff (m := m.toIndexMap) (k := k)
    have hn := IndexMap.mem_keys_iff (m := n.toIndexMap) (k := k)
    rw [← get?, h] at hm
    exact hm.trans hn.symm
  have hmaps : m.toIndexMap = n.toIndexMap := IndexMap.ext hkeys h
  obtain ⟨ks, hks, vs⟩ := m
  obtain ⟨ks', hks', vs'⟩ := n
  cases hmaps
  rfl

/-! ## Sorting -/

theorem pairwise_lt_insertionSort {ks : List K} (h : ks.Nodup) :
    (ks.insertionSort (· ≤ ·)).Pairwise (· < ·) := by
  have hle := List.pairwise_insertionSort (· ≤ ·) ks
  have hne : (ks.insertionSort (· ≤ ·)).Nodup := (List.perm_insertionSort _ ks).nodup_iff.mpr h
  exact (hle.and hne).imp fun h => lt_of_le_of_ne h.1 h.2

/-- Collect the entries of a map. -/
def ofIndexMap (m : IndexMap K V) : SortedMap K V :=
  ⟨m.keys.insertionSort (· ≤ ·), pairwise_lt_insertionSort m.nodup,
    fun k => m.vals ⟨k.1, (List.mem_insertionSort _).mp k.2⟩⟩

theorem get?_ofIndexMap (m : IndexMap K V) (k : K) : (ofIndexMap m).get? k = m.get? k := by
  by_cases h : k ∈ m.keys
  · have hsorted : k ∈ (ofIndexMap m).toIndexMap.keys := (List.mem_insertionSort _).mpr h
    rw [get?, IndexMap.get?_of_mem h, IndexMap.get?_of_mem hsorted]
    rfl
  · have hsorted : k ∉ (ofIndexMap m).toIndexMap.keys := fun hk =>
      h ((List.mem_insertionSort _).mp hk)
    rw [get?, IndexMap.get?_eq_none_iff.mpr h, IndexMap.get?_eq_none_iff.mpr hsorted]

theorem ofIndexMap_toIndexMap (m : SortedMap K V) : ofIndexMap m.toIndexMap = m :=
  ext fun k => get?_ofIndexMap m.toIndexMap k

/-- The map of a list of entries, a later entry for a key replacing an earlier one. -/
def ofList (l : List (K × V)) : SortedMap K V := ofIndexMap (IndexMap.ofList l)

theorem ofList_entries (m : SortedMap K V) : ofList m.toIndexMap.entries = m := by
  rw [ofList, IndexMap.ofList_entries, ofIndexMap_toIndexMap]

/-! ## Maps without an order -/

/-- Collect the entries of a map that has no order. -/
def ofFinmap (m : Finmap fun _ : K => V) : SortedMap K V :=
  ⟨m.keys.sort (· ≤ ·), m.keys.sortedLT_sort.pairwise,
    fun k => (m.lookup k.1).get (Finmap.lookup_isSome.mpr
      (Finmap.mem_keys.mp ((Finset.mem_sort _).mp k.2)))⟩

theorem get?_ofFinmap (m : Finmap fun _ : K => V) (k : K) : (ofFinmap m).get? k = m.lookup k := by
  by_cases h : k ∈ m
  · have hsorted : k ∈ (ofFinmap m).toIndexMap.keys :=
      (Finset.mem_sort _).mpr (Finmap.mem_keys.mpr h)
    rw [get?, IndexMap.get?_of_mem hsorted]
    exact Option.some_get _
  · have hsorted : k ∉ (ofFinmap m).toIndexMap.keys := fun hk =>
      h (Finmap.mem_keys.mp ((Finset.mem_sort _).mp hk))
    rw [get?, IndexMap.get?_eq_none_iff.mpr hsorted, Finmap.lookup_eq_none.mpr h]

/-- The map without an order of a list of entries, a later entry for a key replacing an earlier
one. -/
def finmapOfList (l : List (K × V)) : Finmap fun _ : K => V :=
  l.foldl (fun m e => m.insert e.1 e.2) ∅

theorem lookup_finmapOfList (l : List (K × V)) (k : K) :
    (finmapOfList l).lookup k = (IndexMap.ofList l).get? k := by
  have hfold : ∀ (m : Finmap fun _ : K => V) (n : IndexMap K V),
      (∀ k, m.lookup k = n.get? k) → (l.foldl (fun m e => m.insert e.1 e.2) m).lookup k =
        (l.foldl (fun n e => n.insert e.1 e.2) n).get? k := by
    induction l with
    | nil => exact fun m n h => h k
    | cons e l ih =>
      intro m n h
      refine ih _ _ fun j => ?_
      by_cases hj : j = e.1
      · rw [hj, Finmap.lookup_insert, IndexMap.get?_insert_self]
      · rw [Finmap.lookup_insert_of_ne m hj, IndexMap.get?_insert_of_ne e.2 hj, h]
  exact hfold ∅ .empty fun j => Finmap.lookup_empty j

theorem finmapOfList_entries (m : Finmap fun _ : K => V) :
    finmapOfList (ofFinmap m).toIndexMap.entries = m := by
  refine Finmap.ext_lookup fun k => ?_
  rw [lookup_finmapOfList, IndexMap.ofList_entries]
  exact get?_ofFinmap m k

end SortedMap
