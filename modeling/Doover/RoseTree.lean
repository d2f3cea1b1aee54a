import Mathlib.Data.List.Induction
import Mathlib.Data.Nat.Basic

/-! # Forests, their post-order and the families in them

A rose tree is a label with a list of trees below it, and a forest is a list of trees.  Two
lists are read off a forest:

* `postorder`, the labels with those below a label before it;
* `families`, for each label the list of those right below it, and with them the roots, each
  family in the order of the forest.

`number n` gives every label its index in the post-order, counted from `n`.  A pass over a
forest that threads a counter is a `map` over the numbered forest, and what a pass does to
families follows from one fact: numbers increase along every family
(`families_numbers`).  A change of the trees below one place is `modifyAt`; it keeps a
property of families when the change does (`forall_families_modifyAt`).
-/

inductive RoseTree (α : Type) where
  | node (label : α) (children : List (RoseTree α))

namespace RoseTree
variable {α β γ : Type}

def label : RoseTree α → α
  | node a _ => a

mutual
/-- The number of labels. -/
def size : RoseTree α → ℕ
  | node _ ts => sizes ts + 1
def sizes : List (RoseTree α) → ℕ
  | [] => 0
  | t :: ts => size t + sizes ts
end

mutual
def map (f : α → β) : RoseTree α → RoseTree β
  | node a ts => node (f a) (maps f ts)
def maps (f : α → β) : List (RoseTree α) → List (RoseTree β)
  | [] => []
  | t :: ts => map f t :: maps f ts
end

mutual
/-- The labels, those below a label before it. -/
def postorder : RoseTree α → List α
  | node a ts => postorders ts ++ [a]
def postorders : List (RoseTree α) → List α
  | [] => []
  | t :: ts => postorder t ++ postorders ts
end

mutual
/-- Every label with its index in the post-order, from `n` on. -/
def number : ℕ → RoseTree α → RoseTree (ℕ × α)
  | n, node a ts => node (n + sizes ts, a) (numbers n ts)
def numbers : ℕ → List (RoseTree α) → List (RoseTree (ℕ × α))
  | _, [] => []
  | n, t :: ts => number n t :: numbers (n + size t) ts
end

mutual
/-- The lists of labels right below the same label. -/
def familiesIn : RoseTree α → List (List α)
  | node _ ts => ts.map label :: familiesInAll ts
def familiesInAll : List (RoseTree α) → List (List α)
  | [] => []
  | t :: ts => familiesIn t ++ familiesInAll ts
end

/-- The families of a forest: its roots, and the labels right below each label. -/
def families (ts : List (RoseTree α)) : List (List α) := ts.map label :: familiesInAll ts

@[simp] theorem familiesIn_node (a : α) (ts : List (RoseTree α)) :
    familiesIn (node a ts) = families ts := by
  rw [familiesIn, families]

@[simp] theorem label_map (f : α → β) (t : RoseTree α) : (t.map f).label = f t.label := by
  cases t
  rw [map, label, label]

/-! ## Mapping -/

mutual
theorem map_map (g : β → γ) (f : α → β) : ∀ t : RoseTree α, (t.map f).map g = t.map (g ∘ f)
  | node a ts => by
    rw [map, map, map, maps_maps g f ts]
    rfl
theorem maps_maps (g : β → γ) (f : α → β) :
    ∀ ts : List (RoseTree α), maps g (maps f ts) = maps (g ∘ f) ts
  | [] => by rw [maps, maps, maps]
  | t :: ts => by rw [maps, maps, maps, map_map g f t, maps_maps g f ts]
end

mutual
theorem postorder_map (f : α → β) : ∀ t : RoseTree α, (t.map f).postorder = t.postorder.map f
  | node a ts => by rw [map, postorder, postorder, postorders_maps f ts, List.map_append,
      List.map_singleton]
theorem postorders_maps (f : α → β) :
    ∀ ts : List (RoseTree α), postorders (maps f ts) = (postorders ts).map f
  | [] => by rw [maps, postorders, postorders, List.map_nil]
  | t :: ts => by
    rw [maps, postorders, postorders, postorder_map f t, postorders_maps f ts, List.map_append]
end

theorem map_label_maps (f : α → β) (ts : List (RoseTree α)) :
    (maps f ts).map label = (ts.map label).map f := by
  induction ts with
  | nil => rw [maps, List.map_nil, List.map_nil, List.map_nil]
  | cons t ts ih => rw [maps, List.map_cons, List.map_cons, List.map_cons, ih, label_map]

mutual
theorem familiesIn_map (f : α → β) :
    ∀ t : RoseTree α, familiesIn (t.map f) = (familiesIn t).map (List.map f)
  | node a ts => by
    rw [map, familiesIn, familiesIn, map_label_maps, familiesInAll_maps f ts, List.map_cons]
theorem familiesInAll_maps (f : α → β) :
    ∀ ts : List (RoseTree α), familiesInAll (maps f ts) = (familiesInAll ts).map (List.map f)
  | [] => by rw [maps, familiesInAll, familiesInAll, List.map_nil]
  | t :: ts => by
    rw [maps, familiesInAll, familiesInAll, familiesIn_map f t, familiesInAll_maps f ts,
      List.map_append]
end

theorem families_maps (f : α → β) (ts : List (RoseTree α)) :
    families (maps f ts) = (families ts).map (List.map f) := by
  rw [families, families, map_label_maps, familiesInAll_maps, List.map_cons]

mutual
theorem map_congr {f g : α → β} :
    ∀ t : RoseTree α, (∀ a ∈ t.postorder, f a = g a) → t.map f = t.map g
  | node a ts => fun h => by
    rw [postorder] at h
    rw [map, map, h a (List.mem_append_right _ (List.mem_singleton_self a)),
      maps_congr ts fun b hb => h b (List.mem_append_left _ hb)]
theorem maps_congr {f g : α → β} :
    ∀ ts : List (RoseTree α), (∀ a ∈ postorders ts, f a = g a) → maps f ts = maps g ts
  | [] => fun _ => by rw [maps, maps]
  | t :: ts => fun h => by
    rw [postorders] at h
    rw [maps, maps, map_congr t fun b hb => h b (List.mem_append_left _ hb),
      maps_congr ts fun b hb => h b (List.mem_append_right _ hb)]
end

mutual
theorem length_postorder : ∀ t : RoseTree α, t.postorder.length = t.size
  | node a ts => by rw [postorder, size, List.length_append, length_postorders ts]; rfl
theorem length_postorders : ∀ ts : List (RoseTree α), (postorders ts).length = sizes ts
  | [] => by rw [postorders, sizes]; rfl
  | t :: ts => by
    rw [postorders, sizes, List.length_append, length_postorder t, length_postorders ts]
end

theorem label_mem_postorder (t : RoseTree α) : t.label ∈ t.postorder := by
  cases t
  rw [postorder]
  exact List.mem_append_right _ (List.mem_singleton_self _)

theorem mem_postorders {ts : List (RoseTree α)} {a : α} :
    a ∈ postorders ts ↔ ∃ t ∈ ts, a ∈ t.postorder := by
  induction ts with
  | nil => simp [postorders]
  | cons t ts ih => rw [postorders, List.mem_append, ih]; simp

theorem mem_postorders_of_mem_labels {ts : List (RoseTree α)} {a : α}
    (ha : a ∈ ts.map label) : a ∈ postorders ts := by
  obtain ⟨t, ht, rfl⟩ := List.mem_map.mp ha
  exact mem_postorders.mpr ⟨t, ht, t.label_mem_postorder⟩

mutual
theorem mem_postorder_of_mem_familiesIn {a : α} : ∀ (t : RoseTree α),
    ∀ family ∈ familiesIn t, a ∈ family → a ∈ t.postorder
  | node b ts => fun family hfamily ha => by
    rw [familiesIn] at hfamily
    rw [postorder]
    refine List.mem_append_left _ ?_
    rcases List.mem_cons.mp hfamily with rfl | hfamily
    · exact mem_postorders_of_mem_labels ha
    · exact mem_postorders_of_mem_familiesInAll ts family hfamily ha
theorem mem_postorders_of_mem_familiesInAll {a : α} : ∀ (ts : List (RoseTree α)),
    ∀ family ∈ familiesInAll ts, a ∈ family → a ∈ postorders ts
  | [] => fun family hfamily _ => by
    rw [familiesInAll] at hfamily
    exact absurd hfamily List.not_mem_nil
  | t :: ts => fun family hfamily ha => by
    rw [familiesInAll] at hfamily
    rw [postorders]
    rcases List.mem_append.mp hfamily with hfamily | hfamily
    · exact List.mem_append_left _ (mem_postorder_of_mem_familiesIn t family hfamily ha)
    · exact List.mem_append_right _
        (mem_postorders_of_mem_familiesInAll ts family hfamily ha)
end

theorem mem_postorders_of_mem_families {ts : List (RoseTree α)} {family : List α} {a : α}
    (hfamily : family ∈ families ts) (ha : a ∈ family) : a ∈ postorders ts := by
  rcases List.mem_cons.mp hfamily with rfl | hfamily
  · exact mem_postorders_of_mem_labels ha
  · exact mem_postorders_of_mem_familiesInAll ts family hfamily ha

/-! ## Numbering -/

mutual
theorem map_snd_number : ∀ (n : ℕ) (t : RoseTree α), (number n t).map Prod.snd = t
  | n, node a ts => by rw [number, map, maps_snd_numbers n ts]
theorem maps_snd_numbers : ∀ (n : ℕ) (ts : List (RoseTree α)), maps Prod.snd (numbers n ts) = ts
  | n, [] => by rw [numbers, maps]
  | n, t :: ts => by
    rw [numbers, maps, map_snd_number n t, maps_snd_numbers (n + t.size) ts]
end

mutual
/-- **The number of a label is its index in the post-order.** -/
theorem postorder_number : ∀ (n : ℕ) (t : RoseTree α),
    (number n t).postorder = t.postorder.mapIdx fun i a => (n + i, a)
  | n, node a ts => by
    rw [number, postorder, postorder, postorders_numbers n ts, List.mapIdx_append,
      List.mapIdx_singleton, length_postorders, Nat.zero_add]
theorem postorders_numbers : ∀ (n : ℕ) (ts : List (RoseTree α)),
    postorders (numbers n ts) = (postorders ts).mapIdx fun i a => (n + i, a)
  | n, [] => by rw [numbers, postorders, postorders, List.mapIdx_nil]
  | n, t :: ts => by
    have hshift : (fun i (a : α) => (n + t.size + i, a)) =
        fun i a => (n + (i + t.postorder.length), a) := by
      funext i a
      rw [length_postorder, Nat.add_assoc, Nat.add_comm i]
    rw [numbers, postorders, postorders, postorder_number n t,
      postorders_numbers (n + t.size) ts, List.mapIdx_append, hshift]
end

/-- A map over the numbered forest, in post-order. -/
theorem postorders_maps_numbers (f : ℕ × α → β) (n : ℕ) (ts : List (RoseTree α)) :
    postorders (maps f (numbers n ts)) = (postorders ts).mapIdx fun i a => f (n + i, a) := by
  rw [postorders_maps, postorders_numbers]
  refine List.ext_getElem? fun i => ?_
  rw [List.getElem?_map, List.getElem?_mapIdx, List.getElem?_mapIdx, Option.map_map]
  rfl

theorem one_le_size (t : RoseTree α) : 1 ≤ t.size := by
  cases t
  rw [size]
  exact Nat.le_add_left 1 _

/-- The number of a root, and of the next one. -/
theorem fst_label_number (n : ℕ) (t : RoseTree α) :
    (number n t).label.1 + 1 = n + t.size := by
  cases t
  rw [number, label, size, Nat.add_assoc]

/-- Numbers increase along the roots of a forest. -/
theorem labels_numbers (n : ℕ) (ts : List (RoseTree α)) :
    (∀ b ∈ (numbers n ts).map label, n ≤ b.1) ∧
      ((numbers n ts).map label).Pairwise fun b c => b.1 < c.1 := by
  induction ts generalizing n with
  | nil =>
    rw [numbers]
    exact ⟨fun b hb => absurd hb List.not_mem_nil, .nil⟩
  | cons t ts ih =>
    obtain ⟨hle, hlt⟩ := ih (n + t.size)
    have hroot := fst_label_number n t
    have hsize := one_le_size t
    rw [numbers, List.map_cons]
    constructor
    · intro b hb
      rcases List.mem_cons.mp hb with rfl | hb
      · omega
      · have := hle b hb
        omega
    · refine List.pairwise_cons.mpr ⟨fun c hc => ?_, hlt⟩
      have := hle c hc
      omega

mutual
theorem familiesIn_number : ∀ (n : ℕ) (t : RoseTree α), ∀ family ∈ familiesIn (number n t),
    family.Pairwise fun b c => b.1 < c.1
  | n, node a ts => fun family hfamily => by
    rw [number, familiesIn] at hfamily
    rcases List.mem_cons.mp hfamily with rfl | hfamily
    · exact (labels_numbers n ts).2
    · exact familiesInAll_numbers n ts family hfamily
theorem familiesInAll_numbers : ∀ (n : ℕ) (ts : List (RoseTree α)),
    ∀ family ∈ familiesInAll (numbers n ts), family.Pairwise fun b c => b.1 < c.1
  | n, [] => fun family hfamily => by
    rw [numbers, familiesInAll] at hfamily
    exact absurd hfamily List.not_mem_nil
  | n, t :: ts => fun family hfamily => by
    rw [numbers, familiesInAll] at hfamily
    rcases List.mem_append.mp hfamily with hfamily | hfamily
    · exact familiesIn_number n t family hfamily
    · exact familiesInAll_numbers (n + t.size) ts family hfamily
end

/-- **Numbers increase along every family.** -/
theorem families_numbers (n : ℕ) (ts : List (RoseTree α)) :
    ∀ family ∈ families (numbers n ts), family.Pairwise fun b c => b.1 < c.1 := by
  intro family hfamily
  rcases List.mem_cons.mp hfamily with rfl | hfamily
  · exact (labels_numbers n ts).2
  · exact familiesInAll_numbers n ts family hfamily

/-! ## Changing a forest in one place -/

/-- Change the tree that the positions lead to. -/
def modifyAt (f : RoseTree α → RoseTree α) : List ℕ → RoseTree α → RoseTree α
  | [], t => f t
  | i :: path, node a ts => node a (ts.modify i (modifyAt f path))

theorem mem_familiesInAll {ts : List (RoseTree α)} {family : List α} :
    family ∈ familiesInAll ts ↔ ∃ t ∈ ts, family ∈ familiesIn t := by
  induction ts with
  | nil => simp [familiesInAll]
  | cons t ts ih => rw [familiesInAll, List.mem_append, ih]; simp

theorem label_modifyAt {f : RoseTree α → RoseTree α} (hf : ∀ t, (f t).label = t.label)
    (path : List ℕ) (t : RoseTree α) : (modifyAt f path t).label = t.label := by
  cases path with
  | nil => exact hf t
  | cons i path => cases t; rfl

theorem map_label_modify {f : RoseTree α → RoseTree α} (hf : ∀ t, (f t).label = t.label)
    (i : ℕ) (ts : List (RoseTree α)) : (ts.modify i f).map label = ts.map label := by
  induction ts generalizing i with
  | nil => cases i <;> rfl
  | cons t ts ih =>
    cases i with
    | zero => rw [List.modify_zero_cons, List.map_cons, List.map_cons, hf]
    | succ i => rw [List.modify_succ_cons, List.map_cons, List.map_cons, ih]

theorem familiesInAll_append (ts us : List (RoseTree α)) :
    familiesInAll (ts ++ us) = familiesInAll ts ++ familiesInAll us := by
  induction ts with
  | nil => rw [familiesInAll, List.nil_append, List.nil_append]
  | cons t ts ih => rw [List.cons_append, familiesInAll, familiesInAll, ih, List.append_assoc]

/-- What a change of one tree does to the families of the forest. -/
theorem forall_families_modify {P : List α → Prop} {f : RoseTree α → RoseTree α}
    (hlabel : ∀ t, (f t).label = t.label)
    (hf : ∀ t, (∀ family ∈ familiesIn t, P family) → ∀ family ∈ familiesIn (f t), P family)
    (i : ℕ) {ts : List (RoseTree α)} (h : ∀ family ∈ families ts, P family) :
    ∀ family ∈ families (ts.modify i f), P family := by
  obtain ⟨hroots, hbelow⟩ := List.forall_mem_cons.mp h
  refine List.forall_mem_cons.mpr ⟨(map_label_modify hlabel i ts).symm ▸ hroots, ?_⟩
  intro family hfamily
  obtain ⟨t, ht, hfamily⟩ := mem_familiesInAll.mp hfamily
  have hold : ∀ u ∈ ts, ∀ family ∈ familiesIn u, P family :=
    fun u hu family hfamily => hbelow family (mem_familiesInAll.mpr ⟨u, hu, hfamily⟩)
  obtain ⟨j, hj⟩ := List.mem_iff_getElem?.mp ht
  rw [List.getElem?_modify] at hj
  obtain ⟨u, hu, hut⟩ := Option.map_eq_some_iff.mp hj
  have hmem := List.mem_of_getElem? hu
  by_cases hij : i = j
  · rw [if_pos hij] at hut
    exact hf u (hold u hmem) family (hut ▸ hfamily)
  · rw [if_neg hij] at hut
    exact hold u hmem family (hut ▸ hfamily)

theorem forall_familiesIn_modifyAt {P : List α → Prop} {f : RoseTree α → RoseTree α}
    (hlabel : ∀ t, (f t).label = t.label)
    (hf : ∀ t, (∀ family ∈ familiesIn t, P family) → ∀ family ∈ familiesIn (f t), P family)
    (path : List ℕ) (t : RoseTree α) (h : ∀ family ∈ familiesIn t, P family) :
    ∀ family ∈ familiesIn (modifyAt f path t), P family := by
  induction path generalizing t with
  | nil => exact hf t h
  | cons i path ih =>
    cases t with
    | node a ts =>
      rw [modifyAt, familiesIn_node]
      rw [familiesIn_node] at h
      exact forall_families_modify (label_modifyAt hlabel path) ih i h

/-- **Changes in place.**  A change of a tree that keeps its label, and a property of the
families in it, keeps the property wherever in the forest it is made. -/
theorem forall_families_modifyAt {P : List α → Prop} {f : RoseTree α → RoseTree α}
    (hlabel : ∀ t, (f t).label = t.label)
    (hf : ∀ t, (∀ family ∈ familiesIn t, P family) → ∀ family ∈ familiesIn (f t), P family)
    (i : ℕ) (path : List ℕ) {ts : List (RoseTree α)} (h : ∀ family ∈ families ts, P family) :
    ∀ family ∈ families (ts.modify i (modifyAt f path)), P family :=
  forall_families_modify (label_modifyAt hlabel path)
    (forall_familiesIn_modifyAt hlabel hf path) i h

end RoseTree
