import Doover.RoseTree
import Doover.UiTree

/-! # Positions of UI elements

An element stands where its position says.  An app may declare one, and `finalize` assigns
one to each element that has none: it walks the tree, children before their container, and
counts the elements, so that a tree no position was assigned in yet is numbered in
post-order (`finalize_numbers_postorder`).

An app changes its tree and finalizes it again.  A position that was assigned stays, the
count starts over, so what an element is given depends on how many elements are left before
it.  The automatic positions of the children of a container go on increasing exactly while
every finalize counts a new element beyond the automatic positions of its elder siblings
(`positions_ordered_iff`).
-/

namespace Doover
open RoseTree StepRuns

/-- The position of an element.  The code has its `value`; whether it was declared or
assigned is not recorded there. -/
inductive Position where
  | unset
  | declared (n : ℤ)
  | assigned (n : ℤ)

def Position.value : Position → Option ℤ
  | .unset => none
  | .declared n => some n
  | .assigned n => some n

/-- The automatic position, if it is one. -/
def Position.automatic : Position → Option ℤ
  | .assigned n => some n
  | _ => none

theorem Position.eq_assigned_of_automatic {position : Position} {n : ℤ}
    (h : position.automatic = some n) : position = .assigned n := by
  cases position with
  | unset => cases h
  | declared m => cases h
  | assigned m => exact congrArg assigned (Option.some.inj h)

def Position.setIfUnset (position : Position) (n : ℤ) : Position :=
  if position.value.isNone then .assigned n else position

/-- What elements have in common, and whether they accept commands. -/
structure ElementCommon where
  name : String
  isInteraction : Bool
  position : Position

def ElementCommon.setPositionIfUnset (common : ElementCommon) (position : ℤ) : ElementCommon :=
  { common with position := common.position.setIfUnset position }

def POSITION_COUNTER_START : ℤ := 50

mutual
/-- Count an element, after the elements nested in it. -/
def assignPositionsDepthFirst :
    RoseTree ElementCommon → ℤ → RoseTree ElementCommon × ℤ
  | .node common nestedChildren, counter =>
    let (nestedChildren, counter) := assignPositions nestedChildren counter
    let counter := counter + 1
    (.node (common.setPositionIfUnset counter) nestedChildren, counter)
def assignPositions :
    List (RoseTree ElementCommon) → ℤ → List (RoseTree ElementCommon) × ℤ
  | [], counter => ([], counter)
  | child :: children, counter =>
    let (child, counter) := assignPositionsDepthFirst child counter
    let (children, counter) := assignPositions children counter
    (child :: children, counter)
end

mutual
/-- Remove the children of that name, at every depth. -/
def removeNestedChild (removed : String) : RoseTree ElementCommon → RoseTree ElementCommon
  | .node common nestedChildren => .node common (removeChildren removed nestedChildren)
def removeChildren (removed : String) :
    List (RoseTree ElementCommon) → List (RoseTree ElementCommon)
  | [] => []
  | child :: children =>
    if child.label.name = removed then removeChildren removed children
    else removeNestedChild removed child :: removeChildren removed children
end

def addChildren (added : List (RoseTree ElementCommon)) :
    RoseTree ElementCommon → RoseTree ElementCommon
  | .node common nestedChildren => .node common (nestedChildren ++ added)

def clearChildren : RoseTree ElementCommon → RoseTree ElementCommon
  | .node common _ => .node common []

/-- The elements of an app with their positions. -/
structure PositionedUi where
  children : List (RoseTree ElementCommon)

/-- What an app does to its tree.  A container is named by where it is. -/
inductive UiAct where
  | finalize
  | addChildren (root : ℕ) (path : List ℕ) (children : List (RoseTree ElementCommon))
  | removeChild (root : ℕ) (path : List ℕ) (name : String)
  | clearChildren (root : ℕ) (path : List ℕ)

namespace PositionedUi

def finalize (ui : PositionedUi) : PositionedUi :=
  ⟨(assignPositions ui.children POSITION_COUNTER_START).1⟩

def step (ui : PositionedUi) : UiAct → PositionedUi
  | .finalize => ui.finalize
  | .addChildren root path children =>
    ⟨ui.children.modify root (modifyAt (Doover.addChildren children) path)⟩
  | .removeChild root path name =>
    ⟨ui.children.modify root (modifyAt (removeNestedChild name) path)⟩
  | .clearChildren root path =>
    ⟨ui.children.modify root (modifyAt Doover.clearChildren path)⟩

end PositionedUi

/-- An element but for its position. -/
def ElementCommon.unplaced (common : ElementCommon) : String × Bool :=
  (common.name, common.isInteraction)

/-- An element at this index of a fresh tree, finalized. -/
def ElementCommon.atIndex (i : ℕ) (common : ElementCommon) : ElementCommon :=
  match common.position with
  | .declared _ => common
  | _ => { common with position := .assigned (50 + i) }

/-- None of the positions was assigned. -/
def Unassigned (children : List (RoseTree ElementCommon)) : Prop :=
  ∀ common ∈ postorders children, ∀ n, common.position ≠ .assigned n

/-- The children that the app adds are new ones. -/
def UiAct.AddsFresh : UiAct → Prop
  | .addChildren _ _ children => Unassigned children
  | _ => True

/-! ## The pass as a map over the numbered forest -/

/-- An element with its number in the post-order, finalized. -/
def ElementCommon.place (counter : ℤ) (numbered : ℕ × ElementCommon) : ElementCommon :=
  numbered.2.setPositionIfUnset (counter + numbered.1)

namespace ElementCommon
variable {common : ElementCommon}

theorem place_of_unset (h : common.position = .unset) (counter : ℤ) (i : ℕ) :
    place counter (i, common) = { common with position := .assigned (counter + i) } := by
  rw [place, setPositionIfUnset, h]
  rfl

theorem place_of_ne_unset (h : common.position ≠ .unset) (counter : ℤ) (i : ℕ) :
    place counter (i, common) = common := by
  cases common with
  | mk name isInteraction position =>
    cases position with
    | unset => exact absurd rfl h
    | declared n => rfl
    | assigned n => rfl

theorem position_place_ne_unset (counter : ℤ) (numbered : ℕ × ElementCommon) :
    (place counter numbered).position ≠ .unset := by
  by_cases h : numbered.2.position = .unset
  · rw [place_of_unset h]
    exact Position.noConfusion
  · rw [place_of_ne_unset h]
    exact h

/-- A fresh element gets the position of its index. -/
theorem place_of_ne_assigned (h : ∀ n, common.position ≠ .assigned n) (i : ℕ) :
    place POSITION_COUNTER_START (i, common) = common.atIndex i := by
  cases common with
  | mk name isInteraction position =>
    cases position with
    | unset => rfl
    | declared n => rfl
    | assigned n => exact absurd rfl (h n)

theorem unplaced_place (counter : ℤ) (numbered : ℕ × ElementCommon) :
    (place counter numbered).unplaced = numbered.2.unplaced := rfl

end ElementCommon

mutual
theorem assignPositionsDepthFirst_eq (counter : ℤ) : ∀ (n : ℕ) (t : RoseTree ElementCommon),
    assignPositionsDepthFirst t (counter + n) =
      (map (ElementCommon.place counter) (number (n + 1) t), counter + (n + t.size : ℕ))
  | n, .node common nestedChildren => by
    have hcounter : counter + ((n + sizes nestedChildren : ℕ) : ℤ) + 1 =
        counter + (n + 1 + sizes nestedChildren : ℕ) := by
      push_cast
      ring
    rw [assignPositionsDepthFirst, assignPositions_eq counter n nestedChildren, number, map,
      size]
    simp only [hcounter, ElementCommon.place]
    rw [Nat.add_right_comm n 1, Nat.add_assoc n]
theorem assignPositions_eq (counter : ℤ) : ∀ (n : ℕ) (ts : List (RoseTree ElementCommon)),
    assignPositions ts (counter + n) =
      (maps (ElementCommon.place counter) (numbers (n + 1) ts), counter + (n + sizes ts : ℕ))
  | n, [] => by rw [assignPositions, numbers, maps, sizes, Nat.add_zero]
  | n, t :: ts => by
    rw [assignPositions, assignPositionsDepthFirst_eq counter n t, numbers, maps, sizes]
    simp only [assignPositions_eq counter (n + t.size) ts]
    rw [Nat.add_right_comm n t.size 1, Nat.add_assoc n t.size (sizes ts)]
end

namespace PositionedUi
variable {ui : PositionedUi}

/-- The elements, each with its index in the post-order, from 1 on. -/
def numbered (ui : PositionedUi) : List (RoseTree (ℕ × ElementCommon)) := numbers 1 ui.children

theorem finalize_children (ui : PositionedUi) :
    ui.finalize.children = maps (ElementCommon.place POSITION_COUNTER_START) ui.numbered := by
  have h := assignPositions_eq POSITION_COUNTER_START 0 ui.children
  rw [Nat.cast_zero, add_zero] at h
  rw [finalize, h, numbered]

theorem snd_mem_of_mem_numbered {numbered : ℕ × ElementCommon}
    (h : numbered ∈ postorders ui.numbered) : numbered.2 ∈ postorders ui.children := by
  have hmem := List.mem_map_of_mem (f := Prod.snd) h
  rwa [← postorders_maps, PositionedUi.numbered, maps_snd_numbers] at hmem

/-- **Finalizing twice.**  Whatever the tree, after a finalize no position is left to be
assigned. -/
theorem finalize_finalize (ui : PositionedUi) : ui.finalize.finalize = ui.finalize := by
  refine congrArg PositionedUi.mk (Eq.trans (b := maps Prod.snd ui.finalize.numbered) ?_ ?_)
  · change ui.finalize.finalize.children = _
    rw [finalize_children]
    refine maps_congr _ fun numbered hnumbered => ?_
    have hset : numbered.2 ∈ postorders ui.finalize.children := snd_mem_of_mem_numbered hnumbered
    rw [finalize_children, postorders_maps] at hset
    obtain ⟨placed, -, hplaced⟩ := List.mem_map.mp hset
    refine ElementCommon.place_of_ne_unset ?_ _ numbered.1
    rw [← hplaced]
    exact ElementCommon.position_place_ne_unset _ placed
  · exact maps_snd_numbers 1 ui.finalize.children

/-! ## Fresh trees -/

theorem maps_unplaced_finalize (ui : PositionedUi) :
    maps ElementCommon.unplaced ui.finalize.children =
      maps ElementCommon.unplaced ui.children :=
  calc maps ElementCommon.unplaced ui.finalize.children
      = maps (ElementCommon.unplaced ∘ Prod.snd) ui.numbered := by
        rw [finalize_children, maps_maps]
        exact maps_congr _ fun numbered _ => ElementCommon.unplaced_place _ numbered
    _ = maps ElementCommon.unplaced ui.children := by
        rw [← maps_maps, numbered, maps_snd_numbers]

/-- **A fresh tree is numbered in post-order.**  Each element without a position gets 50
plus its index in the post-order, counted from 1; declared positions stay, and so do the
shape of the tree and everything else about its elements.  Another finalize changes
nothing. -/
theorem finalize_numbers_postorder (h : Unassigned ui.children) :
    postorders ui.finalize.children =
        (postorders ui.children).mapIdx (fun i common => common.atIndex (i + 1)) ∧
      maps ElementCommon.unplaced ui.finalize.children =
        maps ElementCommon.unplaced ui.children ∧
      ui.finalize.finalize = ui.finalize := by
  refine ⟨?_, maps_unplaced_finalize ui, finalize_finalize ui⟩
  rw [finalize_children, numbered, postorders_maps_numbers]
  refine List.mapIdx_eq_mapIdx_iff.mpr fun i hi => ?_
  rw [Nat.add_comm 1 i]
  exact ElementCommon.place_of_ne_assigned (h _ (List.getElem_mem hi)) (i + 1)

/-- A container with a declared child and another, and an element after it. -/
def freshPanel : PositionedUi :=
  ⟨[.node ⟨"panel", false, .unset⟩
      [.node ⟨"speed", false, .declared 7⟩ [], .node ⟨"start", true, .unset⟩ []],
    .node ⟨"stop", true, .unset⟩ []]⟩

theorem freshPanel_unassigned : Unassigned freshPanel.children := by
  intro common hcommon n hn
  rcases List.mem_cons.mp hcommon with rfl | hcommon
  · cases hn
  rcases List.mem_cons.mp hcommon with rfl | hcommon
  · cases hn
  rcases List.mem_cons.mp hcommon with rfl | hcommon
  · cases hn
  obtain rfl := List.mem_singleton.mp hcommon
  cases hn

theorem freshPanel_numbered :
    postorders freshPanel.finalize.children =
        [⟨"speed", false, .declared 7⟩, ⟨"start", true, .assigned 52⟩,
          ⟨"panel", false, .assigned 53⟩, ⟨"stop", true, .assigned 54⟩] ∧
      maps ElementCommon.unplaced freshPanel.finalize.children =
        maps ElementCommon.unplaced freshPanel.children ∧
      freshPanel.finalize.finalize = freshPanel.finalize := by
  obtain ⟨hpostorder, hrest⟩ := finalize_numbers_postorder freshPanel_unassigned
  exact ⟨hpostorder, hrest⟩

/-! ## Families of automatic positions -/

/-- The automatic positions of the children of each container, and of the roots, are
distinct and increase in declaration order. -/
def Ordered (ui : PositionedUi) : Prop :=
  ∀ family ∈ families ui.children,
    (family.filterMap fun common => common.position.automatic).Pairwise (· < ·)

/-- The next finalize counts every element without a position beyond the automatic
positions of its elder siblings. -/
def CountsBeyond (ui : PositionedUi) : Prop :=
  ∀ family ∈ families ui.numbered,
    family.Pairwise fun elder younger =>
      ∀ n, elder.2.position = .assigned n → younger.2.position = .unset →
        n < POSITION_COUNTER_START + younger.1

/-- What holds of two siblings whatever happens to the tree: their automatic positions
increase, and the elder has a position if the younger was assigned one. -/
structure Settled (elder younger : ElementCommon) : Prop where
  lt : ∀ m n, elder.position = .assigned m → younger.position = .assigned n → m < n
  placed : elder.position = .unset → ∀ n, younger.position ≠ .assigned n

/-- Every two siblings are settled. -/
def AllSettled (children : List (RoseTree ElementCommon)) : Prop :=
  ∀ family ∈ families children, family.Pairwise Settled

theorem settled_of_ne_assigned {elder younger : ElementCommon}
    (h : ∀ n, younger.position ≠ .assigned n) : Settled elder younger where
  lt _ n _ hn := absurd hn (h n)
  placed _ := h

theorem allSettled_of_unassigned {children : List (RoseTree ElementCommon)}
    (h : Unassigned children) : AllSettled children := by
  intro family hfamily
  refine List.pairwise_of_forall_mem_list fun elder _ younger hyounger => ?_
  exact settled_of_ne_assigned (h younger (mem_postorders_of_mem_families hfamily hyounger))

theorem ordered_of_allSettled (h : AllSettled ui.children) : ui.Ordered := by
  intro family hfamily
  refine List.pairwise_filterMap.mpr ((h family hfamily).imp ?_)
  intro elder younger hsettled m hm n hn
  exact hsettled.lt m n (Position.eq_assigned_of_automatic hm)
    (Position.eq_assigned_of_automatic hn)

/-! ## Mutations -/

theorem label_removeNestedChild (removed : String) (t : RoseTree ElementCommon) :
    (removeNestedChild removed t).label = t.label := by
  cases t
  rfl

/-- Removal leaves a sublist of each family. -/
theorem labels_removeChildren (removed : String) (ts : List (RoseTree ElementCommon)) :
    List.Sublist ((removeChildren removed ts).map label) (ts.map label) := by
  induction ts with
  | nil => exact List.Sublist.refl _
  | cons t ts ih =>
    rw [removeChildren, List.map_cons]
    split
    · exact ih.cons t.label
    · rw [List.map_cons, label_removeNestedChild]
      exact ih.cons_cons t.label

mutual
theorem settled_removeNestedChild (removed : String) : ∀ t : RoseTree ElementCommon,
    (∀ family ∈ familiesIn t, family.Pairwise Settled) →
      ∀ family ∈ familiesIn (removeNestedChild removed t), family.Pairwise Settled
  | .node common nestedChildren => fun h => by
    rw [familiesIn] at h
    rw [removeNestedChild, familiesIn]
    obtain ⟨hroots, hbelow⟩ := List.forall_mem_cons.mp h
    exact List.forall_mem_cons.mpr ⟨hroots.sublist (labels_removeChildren removed nestedChildren),
      settled_removeChildren removed nestedChildren hbelow⟩
theorem settled_removeChildren (removed : String) : ∀ ts : List (RoseTree ElementCommon),
    (∀ family ∈ familiesInAll ts, family.Pairwise Settled) →
      ∀ family ∈ familiesInAll (removeChildren removed ts), family.Pairwise Settled
  | [] => fun h => by
    rw [removeChildren]
    exact h
  | t :: ts => fun h => by
    rw [familiesInAll] at h
    obtain ⟨hfirst, hrest⟩ := List.forall_mem_append.mp h
    have ih := settled_removeChildren removed ts hrest
    rw [removeChildren]
    split
    · exact ih
    · rw [familiesInAll]
      exact List.forall_mem_append.mpr ⟨settled_removeNestedChild removed t hfirst, ih⟩
end

theorem settled_addChildren {added : List (RoseTree ElementCommon)} (hadded : Unassigned added)
    (t : RoseTree ElementCommon) (h : ∀ family ∈ familiesIn t, family.Pairwise Settled) :
    ∀ family ∈ familiesIn (addChildren added t), family.Pairwise Settled := by
  cases t with
  | node common nestedChildren =>
    rw [familiesIn] at h
    rw [addChildren, familiesIn, List.map_append, familiesInAll_append]
    obtain ⟨hroots, hbelow⟩ := List.forall_mem_cons.mp h
    obtain ⟨hnew, hnewBelow⟩ := List.forall_mem_cons.mp (allSettled_of_unassigned hadded)
    refine List.forall_mem_cons.mpr ⟨?_, List.forall_mem_append.mpr ⟨hbelow, hnewBelow⟩⟩
    refine List.pairwise_append.mpr ⟨hroots, hnew, fun elder _ younger hyounger => ?_⟩
    exact settled_of_ne_assigned (hadded younger (mem_postorders_of_mem_labels hyounger))

theorem settled_clearChildren (t : RoseTree ElementCommon) :
    ∀ family ∈ familiesIn (clearChildren t), family.Pairwise Settled := by
  cases t with
  | node common nestedChildren =>
    rw [clearChildren, familiesIn, familiesInAll]
    exact List.forall_mem_singleton.mpr List.Pairwise.nil

/-- A change of the tree leaves it settled. -/
theorem allSettled_step {a : UiAct} (ha : a ≠ .finalize) (hfresh : a.AddsFresh)
    (h : AllSettled ui.children) : AllSettled (ui.step a).children := by
  cases a with
  | finalize => exact absurd rfl ha
  | addChildren root path children =>
    refine forall_families_modifyAt (fun t => ?_) (settled_addChildren hfresh) root path h
    cases t
    rfl
  | removeChild root path name =>
    exact forall_families_modifyAt (label_removeNestedChild name)
      (settled_removeNestedChild name) root path h
  | clearChildren root path =>
    refine forall_families_modifyAt (fun t => ?_) (fun t _ => settled_clearChildren t) root path h
    cases t
    rfl

/-! ## Finalizing a settled tree -/

/-- What a finalize makes of two settled siblings. -/
theorem settled_place_iff {elder younger : ℕ × ElementCommon} (hlt : elder.1 < younger.1)
    (h : Settled elder.2 younger.2) :
    Settled (ElementCommon.place POSITION_COUNTER_START elder)
        (ElementCommon.place POSITION_COUNTER_START younger) ↔
      ∀ n, elder.2.position = .assigned n → younger.2.position = .unset →
        n < POSITION_COUNTER_START + younger.1 := by
  constructor
  · intro hplaced n helder hyounger
    refine hplaced.lt n _ ?_ (congrArg ElementCommon.position
      (ElementCommon.place_of_unset hyounger _ younger.1))
    rw [ElementCommon.place_of_ne_unset (by rw [helder]; exact Position.noConfusion)]
    exact helder
  · intro hcounts
    refine ⟨fun m n hm hn => ?_, fun hunset =>
      absurd hunset (ElementCommon.position_place_ne_unset _ elder)⟩
    by_cases hyounger : younger.2.position = .unset
    · rw [ElementCommon.place_of_unset hyounger] at hn
      obtain rfl := Position.assigned.inj hn
      by_cases helder : elder.2.position = .unset
      · rw [ElementCommon.place_of_unset helder] at hm
        obtain rfl := Position.assigned.inj hm
        exact Int.add_lt_add_left (Int.ofNat_lt.mpr hlt) _
      · rw [ElementCommon.place_of_ne_unset helder] at hm
        exact hcounts m hm hyounger
    · rw [ElementCommon.place_of_ne_unset hyounger] at hn
      by_cases helder : elder.2.position = .unset
      · exact absurd hn (h.placed helder n)
      · rw [ElementCommon.place_of_ne_unset helder] at hm
        exact h.lt m n hm hn

/-- **One finalize.**  A settled tree stays settled exactly when the new elements are
counted beyond the old positions. -/
theorem allSettled_finalize_iff (h : AllSettled ui.children) :
    AllSettled ui.finalize.children ↔ ui.CountsBeyond := by
  rw [AllSettled, finalize_children, families_maps, List.forall_mem_map, CountsBeyond]
  refine forall_congr' fun family => forall_congr' fun hfamily => ?_
  have hnumbers : family.Pairwise fun elder younger => elder.1 < younger.1 :=
    families_numbers 1 ui.children family hfamily
  have hsettled : (family.map Prod.snd).Pairwise Settled := by
    refine h _ ?_
    rw [← maps_snd_numbers 1 ui.children, families_maps]
    exact List.mem_map_of_mem hfamily
  have hboth := hnumbers.and (List.pairwise_map.mp hsettled)
  rw [List.pairwise_map]
  constructor
  · intro hplaced
    exact hboth.imp₂ (fun _ _ hpair hp => (settled_place_iff hpair.1 hpair.2).mp hp) hplaced
  · intro hcounts
    exact hboth.imp₂ (fun _ _ hpair hc => (settled_place_iff hpair.1 hpair.2).mpr hc) hcounts

theorem ne_unset_of_mem_finalize {common : ElementCommon}
    (h : common ∈ postorders ui.finalize.children) : common.position ≠ .unset := by
  rw [finalize_children, postorders_maps] at h
  obtain ⟨numbered, -, rfl⟩ := List.mem_map.mp h
  exact ElementCommon.position_place_ne_unset _ numbered

/-- After a finalize, to be ordered is all there is to being settled. -/
theorem allSettled_finalize_of_ordered (h : ui.finalize.Ordered) :
    AllSettled ui.finalize.children := by
  intro family hfamily
  refine List.Pairwise.imp_of_mem ?_ (List.pairwise_filterMap.mp (h family hfamily))
  intro elder younger helder _ hlt
  refine ⟨fun m n hm hn => hlt m ?_ n ?_, fun hunset => absurd hunset ?_⟩
  · rw [hm]
    rfl
  · rw [hn]
    rfl
  · exact ne_unset_of_mem_finalize (mem_postorders_of_mem_families hfamily helder)

/-! ## Runs -/

/-- **When automatic positions stay distinct and ordered.**  An app builds a tree, changes
it, adding new elements only, and finalizes it time and again.  After every finalize the
automatic positions among the children of each container, and among the roots, increase in
declaration order, if and only if every finalize counts each element without a position
beyond the automatic positions of its elder siblings. -/
theorem positions_ordered_iff (hui : Unassigned ui.children) {acts : List UiAct}
    (hacts : ∀ a ∈ acts, a.AddsFresh) :
    (∀ pre, pre ++ [.finalize] <+: acts → (exec step ui (pre ++ [.finalize])).Ordered) ↔
      ∀ pre, pre ++ [.finalize] <+: acts → (exec step ui pre).CountsBeyond := by
  have hfresh : ∀ pre a, pre ++ [a] <+: acts → a.AddsFresh :=
    fun pre a hpre => hacts a (hpre.subset (List.mem_append_right pre (List.mem_singleton_self a)))
  have hstep : ∀ pre a, pre ++ [a] <+: acts → AllSettled (exec step ui pre).children →
      (AllSettled (exec step ui (pre ++ [a])).children ↔
        (a = .finalize → (exec step ui pre).CountsBeyond)) := by
    intro pre a hpre h
    rw [exec_concat]
    by_cases ha : a = .finalize
    · rw [ha, forall_prop_of_true rfl]
      exact allSettled_finalize_iff h
    · exact iff_of_true (allSettled_step ha (hfresh pre a hpre) h) fun hfin => absurd hfin ha
  have hruns := forall_prefix_iff (P := fun pre => AllSettled (exec step ui pre).children)
    (C := fun pre a => a = .finalize → (exec step ui pre).CountsBeyond)
    (allSettled_of_unassigned hui) hstep
  constructor
  · intro h pre hpre
    refine hruns.mp (prefix_induction
      (P := fun pre => AllSettled (exec step ui pre).children)
      (allSettled_of_unassigned hui) fun pre a hpre hP => ?_) pre .finalize hpre rfl
    by_cases ha : a = .finalize
    · subst ha
      have hordered := h pre hpre
      rw [exec_concat] at hordered ⊢
      exact allSettled_finalize_of_ordered hordered
    · exact (hstep pre a hpre hP).mpr fun hfin => absurd hfin ha
  · intro h pre hpre
    refine ordered_of_allSettled (hruns.mpr (fun pre a hpre ha => ?_) _ hpre)
    exact h pre (ha ▸ hpre)

/-- A container with two children, the first of which is replaced by a new one. -/
def replaceFirst : List UiAct :=
  [.finalize, .removeChild 0 [] "first",
    .addChildren 0 [] [.node ⟨"third", false, .unset⟩ []], .finalize]

def twoChildren : PositionedUi :=
  ⟨[.node ⟨"panel", false, .unset⟩
      [.node ⟨"first", false, .unset⟩ [], .node ⟨"second", false, .unset⟩ []]]⟩

/-- The new child gets the position that its sibling has already. -/
theorem replaceFirst_collides :
    (exec step twoChildren replaceFirst).children =
        [.node ⟨"panel", false, .assigned 53⟩
          [.node ⟨"second", false, .assigned 52⟩ [], .node ⟨"third", false, .assigned 52⟩ []]] ∧
      ¬ (exec step twoChildren replaceFirst).Ordered := by
  have hchildren : (exec step twoChildren replaceFirst).children =
      [.node ⟨"panel", false, .assigned 53⟩
        [.node ⟨"second", false, .assigned 52⟩ [], .node ⟨"third", false, .assigned 52⟩ []]] := rfl
  refine ⟨hchildren, fun hordered => ?_⟩
  have hpair := hordered
    [⟨"second", false, .assigned 52⟩, ⟨"third", false, .assigned 52⟩]
    (by rw [hchildren]; exact List.mem_cons_of_mem _ List.mem_cons_self)
  exact absurd (List.rel_of_pairwise_cons hpair List.mem_cons_self) (lt_irrefl (52 : ℤ))

theorem twoChildren_unassigned : Unassigned twoChildren.children := by
  intro common hcommon n hn
  rcases List.mem_cons.mp hcommon with rfl | hcommon
  · cases hn
  rcases List.mem_cons.mp hcommon with rfl | hcommon
  · cases hn
  obtain rfl := List.mem_singleton.mp hcommon
  cases hn

theorem replaceFirst_addsFresh : ∀ a ∈ replaceFirst, a.AddsFresh := by
  refine List.forall_mem_cons.mpr ⟨trivial, List.forall_mem_cons.mpr ⟨trivial, ?_⟩⟩
  refine List.forall_mem_cons.mpr
    ⟨fun common hcommon n hn => ?_, List.forall_mem_singleton.mpr trivial⟩
  obtain rfl := List.mem_singleton.mp hcommon
  cases hn

theorem positions_ordered_iff_replaceFirst :
    (∀ pre, pre ++ [.finalize] <+: replaceFirst →
        (exec step twoChildren (pre ++ [.finalize])).Ordered) ↔
      ∀ pre, pre ++ [.finalize] <+: replaceFirst → (exec step twoChildren pre).CountsBeyond :=
  positions_ordered_iff twoChildren_unassigned replaceFirst_addsFresh

end PositionedUi

/-! ## The tree without its positions -/

mutual
/-- The element that is served: its position does not matter for its commands. -/
def UiElement.ofTree : RoseTree (String × Bool) → UiElement
  | .node (name, isInteraction) nestedChildren =>
    .mk name isInteraction (UiElement.ofTrees nestedChildren)
def UiElement.ofTrees : List (RoseTree (String × Bool)) → List UiElement
  | [] => []
  | t :: ts => UiElement.ofTree t :: UiElement.ofTrees ts
end

def UiElement.ofPositioned (t : RoseTree ElementCommon) : UiElement :=
  UiElement.ofTree (t.map ElementCommon.unplaced)

def UiElement.ofAllPositioned (ts : List (RoseTree ElementCommon)) : List UiElement :=
  UiElement.ofTrees (maps ElementCommon.unplaced ts)

namespace UiElement

theorem ofPositioned_node (common : ElementCommon) (children : List (RoseTree ElementCommon)) :
    ofPositioned (.node common children) =
      .mk common.name common.isInteraction (ofAllPositioned children) := by
  rw [ofPositioned, map, ElementCommon.unplaced, ofTree, ofAllPositioned]

theorem ofAllPositioned_eq_map (ts : List (RoseTree ElementCommon)) :
    ofAllPositioned ts = ts.map ofPositioned := by
  induction ts with
  | nil => rfl
  | cons t ts ih =>
    rw [ofAllPositioned] at ih
    rw [ofAllPositioned, maps, ofTrees, ih, List.map_cons, ofPositioned]

theorem name_ofPositioned (t : RoseTree ElementCommon) :
    (ofPositioned t).name = t.label.name := by
  cases t
  rw [ofPositioned_node]
  rfl

theorem ofPositioned_addChildren (added : List (RoseTree ElementCommon))
    (t : RoseTree ElementCommon) :
    ofPositioned (Doover.addChildren added t) =
      (ofPositioned t).addChildren (ofAllPositioned added) := by
  cases t
  rw [Doover.addChildren, ofPositioned_node, ofPositioned_node, addChildren,
    ofAllPositioned_eq_map, List.map_append, ← ofAllPositioned_eq_map, ← ofAllPositioned_eq_map]

theorem ofPositioned_clearChildren (t : RoseTree ElementCommon) :
    ofPositioned (Doover.clearChildren t) = (ofPositioned t).clearChildren := by
  cases t
  rw [Doover.clearChildren, ofPositioned_node, ofPositioned_node, clearChildren]
  rfl

mutual
theorem ofPositioned_removeNestedChild (removed : String) : ∀ t : RoseTree ElementCommon,
    ofPositioned (Doover.removeNestedChild removed t) =
      (ofPositioned t).removeNestedChild removed
  | .node common nestedChildren => by
    rw [Doover.removeNestedChild, ofPositioned_node, ofPositioned_node, removeNestedChild,
      ofAllPositioned_removeChildren removed nestedChildren]
theorem ofAllPositioned_removeChildren (removed : String) :
    ∀ ts : List (RoseTree ElementCommon),
      ofAllPositioned (Doover.removeChildren removed ts) =
        removeChildren removed (ofAllPositioned ts)
  | [] => by
    rw [Doover.removeChildren]
    rfl
  | t :: ts => by
    have ih := ofAllPositioned_removeChildren removed ts
    have hfirst := ofPositioned_removeNestedChild removed t
    rw [ofAllPositioned_eq_map] at ih ⊢
    rw [ofAllPositioned_eq_map, List.map_cons, removeChildren, name_ofPositioned,
      Doover.removeChildren, ← ofAllPositioned_eq_map ts, ← ih]
    split
    · rfl
    · rw [List.map_cons, hfirst]
end

theorem ofAllPositioned_modify {f : RoseTree ElementCommon → RoseTree ElementCommon}
    {g : UiElement → UiElement} (h : ∀ t, ofPositioned (f t) = g (ofPositioned t)) (i : ℕ)
    (ts : List (RoseTree ElementCommon)) :
    ofAllPositioned (ts.modify i f) = (ofAllPositioned ts).modify i g := by
  rw [ofAllPositioned_eq_map, ofAllPositioned_eq_map]
  induction ts generalizing i with
  | nil => cases i <;> rfl
  | cons t ts ih =>
    cases i with
    | zero =>
      rw [List.modify_zero_cons, List.map_cons, List.map_cons, List.modify_zero_cons, h]
    | succ i =>
      rw [List.modify_succ_cons, List.map_cons, List.map_cons, List.modify_succ_cons, ih]

theorem ofPositioned_modifyAt {f : RoseTree ElementCommon → RoseTree ElementCommon}
    {g : UiElement → UiElement} (h : ∀ t, ofPositioned (f t) = g (ofPositioned t))
    (path : List ℕ) (t : RoseTree ElementCommon) :
    ofPositioned (RoseTree.modifyAt f path t) = modifyAt g path (ofPositioned t) := by
  induction path generalizing t with
  | nil => exact h t
  | cons i path ih =>
    cases t
    rw [RoseTree.modifyAt, ofPositioned_node, ofPositioned_node, modifyAt,
      ofAllPositioned_modify ih]

end UiElement

/-- The mutation of the served tree; a finalize is none. -/
def UiAct.mutation : UiAct → Option UiMutation
  | .finalize => none
  | .addChildren root path children =>
    some (.addChildren root path (UiElement.ofAllPositioned children))
  | .removeChild root path name => some (.removeChild root path name)
  | .clearChildren root path => some (.clearChildren root path)

namespace PositionedUi

def toUiTree (ui : PositionedUi) : UiTree := ⟨UiElement.ofAllPositioned ui.children⟩

/-- **The two trees of one app.**  Without its positions the tree changes as the served one
does, and a finalize does not change it. -/
theorem toUiTree_step (ui : PositionedUi) (a : UiAct) :
    (ui.step a).toUiTree = a.mutation.elim ui.toUiTree ui.toUiTree.mutate := by
  cases a with
  | finalize =>
    refine congrArg (fun ts => UiTree.mk (UiElement.ofTrees ts)) ?_
    exact maps_unplaced_finalize ui
  | addChildren root path children =>
    refine congrArg UiTree.mk (UiElement.ofAllPositioned_modify (fun t => ?_) root ui.children)
    exact UiElement.ofPositioned_modifyAt (UiElement.ofPositioned_addChildren children) path t
  | removeChild root path name =>
    refine congrArg UiTree.mk (UiElement.ofAllPositioned_modify (fun t => ?_) root ui.children)
    exact UiElement.ofPositioned_modifyAt (UiElement.ofPositioned_removeNestedChild name) path t
  | clearChildren root path =>
    refine congrArg UiTree.mk (UiElement.ofAllPositioned_modify (fun t => ?_) root ui.children)
    exact UiElement.ofPositioned_modifyAt UiElement.ofPositioned_clearChildren path t

end PositionedUi
end Doover
