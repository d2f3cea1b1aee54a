import Doover.RpcExchange
import Doover.UiElements

/-! # The published UI, read back

`to_schema` writes the whole tree of elements into one document.  A reader of it finds an
element wherever there are keys, and its children under `children`.  What it reads is every
element's document, in the order and nesting of the tree, exactly when no container holds
two children of one name (`readElement_toSchema_iff`); the elements that the document says
to be interactions are then those that the runtime takes commands for.

A remote component forwards extra keys, which replace keys written before them.  Here none
is one of the keys that say what the element is.
-/

namespace Doover
open Json RoseTree

/-! ## Slots -/

section Slots
variable {m : IndexMap String Json} {k : String} {slots : List (String × Option Json)}

theorem insertSlots_cons (m : IndexMap String Json) (slot : String × Option Json)
    (slots : List (String × Option Json)) :
    insertSlots m (slot :: slots) = insertSlots (insertSome m slot.1 slot.2) slots := rfl

theorem insertSlots_append (m : IndexMap String Json) (slots slots' : List (String × Option Json)) :
    insertSlots m (slots ++ slots') = insertSlots (insertSlots m slots) slots' :=
  List.foldl_append

theorem get?_insertSlots_of_not_mem (h : k ∉ slots.map Prod.fst) :
    (insertSlots m slots).get? k = m.get? k := by
  induction slots generalizing m with
  | nil => rfl
  | cons slot slots ih =>
    rw [List.map_cons, List.mem_cons, not_or] at h
    rw [insertSlots_cons, ih h.2]
    exact get?_insertSome_of_ne h.1 slot.2

theorem retain_insertSlots {p : String → Bool} (h : ∀ k ∈ slots.map Prod.fst, p k = true) :
    (insertSlots m slots).retain p = insertSlots (m.retain p) slots := by
  induction slots generalizing m with
  | nil => rfl
  | cons slot slots ih =>
    rw [List.map_cons, List.forall_mem_cons] at h
    rw [insertSlots_cons, insertSlots_cons, ih h.2]
    refine congrArg (insertSlots · slots) ?_
    cases slot.2 with
    | none => rfl
    | some v => exact IndexMap.retain_insert_of_pos m v h.1

end Slots

namespace Ui

/-- What an element writes but for its children. -/
abbrev Document := IndexMap String Json

/-! ## Reading a schema -/

def ownKey (k : String) : Bool := k ≠ "children"

mutual
def readElement : Json → RoseTree Document
  | .object ⟨keys, nodup, vals⟩ =>
    .node ((IndexMap.mk keys nodup vals).retain ownKey)
      (if h : "children" ∈ keys then readChildren (vals ⟨"children", h⟩) else [])
  | _ => .node .empty []
def readChildren : Json → List (RoseTree Document)
  | .object ⟨keys, _, vals⟩ => keys.attach.map fun k => readElement (vals k)
  | _ => []
end

theorem readElement_object (m : Document) : readElement (.object m) =
    .node (m.retain ownKey) (((m.get? "children").map readChildren).getD []) := by
  obtain ⟨keys, nodup, vals⟩ := m
  rw [readElement]
  refine congrArg (node _) ?_
  by_cases h : "children" ∈ keys
  · rw [dif_pos h, IndexMap.get?_of_mem (m := ⟨keys, nodup, vals⟩) h]
    rfl
  · rw [dif_neg h, IndexMap.get?_eq_none_iff.mpr h]
    rfl

theorem readChildren_object (m : Document) :
    readChildren (.object m) = m.entries.map fun e => readElement e.2 := by
  obtain ⟨keys, nodup, vals⟩ := m
  rw [readChildren, IndexMap.entries, List.map_map]
  rfl

/-- The types of the interactions. -/
def INTERACTION_TYPES : List String :=
  ["uiButton", "uiSwitch", "uiSlider", "uiSelect", "uiWarningIndicator", "uiFloatInput",
    "uiTextInput", "uiDatetimeInput", "uiTimeInput"]

/-- The command that an element's document offers, if it is an interaction's. -/
def offered (document : Document) : List String :=
  match document.get? "type", document.get? "name" with
  | some (.string ty), some (.string name) => if ty ∈ INTERACTION_TYPES then [name] else []
  | _, _ => []

mutual
/-- The commands that what was read offers. -/
def commandNames : RoseTree Document → List String
  | .node document children => offered document ++ commandNamesAll children
def commandNamesAll : List (RoseTree Document) → List String
  | [] => []
  | t :: ts => commandNames t ++ commandNamesAll ts
end

/-! ## The documents of a tree -/

/-- The keys that say what an element is. -/
def RESERVED : List String := ["name", "type", "children"]

/-- The keys that a remote component forwards do not say what an element is. -/
def ContainerKind.Plain : ContainerKind → Prop
  | .remoteComponent extras => ∀ k ∈ RESERVED, k ∉ extras.keys
  | _ => True

def Interaction.ty : Interaction → String
  | .button _ => "uiButton"
  | .switch _ => "uiSwitch"
  | .slider _ => "uiSlider"
  | .select _ => "uiSelect"
  | .warningIndicator _ => "uiWarningIndicator"
  | .floatInput _ => "uiFloatInput"
  | .textInput _ => "uiTextInput"
  | .datetimeInput _ => "uiDatetimeInput"
  | .timeInput _ => "uiTimeInput"

def Display.ty : Display → String
  | .numericVariable _ | .textVariable _ | .booleanVariable _ | .dateTimeVariable _ => "uiVariable"
  | .timestamp _ => "uiTimestamp"
  | .cameraLiveView _ => "uiCameraLiveView"
  | .cameraHistory _ => "uiCameraHistory"
  | .multiplot _ => "uiMultiPlot"

namespace Element

def ty : Element → String
  | interaction i => i.ty
  | display d => d.ty
  | connectionInfo _ => "uiConnectionInfo"
  | container _ kind _ => kind.ty

def position : Element → Position
  | interaction i => i.common.element.position
  | display d => d.common.position
  | connectionInfo c => c.position
  | container common _ _ => common.position

/-- Name, position, and whether commands are taken. -/
def place (e : Element) : Doover.ElementCommon := ⟨e.name, e.isInteraction, e.position⟩

mutual
def skeleton : Element → RoseTree Doover.ElementCommon
  | interaction i => .node (place (interaction i)) []
  | display d => .node (place (display d)) []
  | connectionInfo c => .node (place (connectionInfo c)) []
  | container common kind children =>
    .node (place (container common kind children)) (skeletons children)
def skeletons : List Element → List (RoseTree Doover.ElementCommon)
  | [] => []
  | child :: children => child.skeleton :: skeletons children
end

mutual
def Plain : Element → Prop
  | container _ kind children => kind.Plain ∧ AllPlain children
  | _ => True
def AllPlain : List Element → Prop
  | [] => True
  | child :: children => child.Plain ∧ AllPlain children
end

section Documents
variable (toString : Json → String)

def document : Element → Document
  | interaction i => i.elementJson toString
  | display d => d.elementJson toString
  | connectionInfo c => c.toJson
  | container common kind _ => insertSlots (common.baseJson kind.ty) (kind.slots toString)

mutual
def documents : Element → RoseTree Document
  | interaction i => .node ((interaction i).document toString) []
  | display d => .node ((display d).document toString) []
  | connectionInfo c => .node ((connectionInfo c).document toString) []
  | container common kind children =>
    .node ((container common kind children).document toString) (documentsAll children)
def documentsAll : List Element → List (RoseTree Document)
  | [] => []
  | child :: children => child.documents :: documentsAll children
end

end Documents
end Element

/-! ## What a document says -/

/-- None of the slots says what the element is. -/
def PlainSlots (slots : List (String × Option Json)) : Prop :=
  ∀ k ∈ RESERVED, k ∉ slots.map Prod.fst

theorem plainSlots_append {slots slots' : List (String × Option Json)} (h : PlainSlots slots)
    (h' : PlainSlots slots') : PlainSlots (slots ++ slots') := by
  intro k hk hmem
  rw [List.map_append, List.mem_append] at hmem
  exact hmem.elim (h k hk) (h' k hk)

/-- The document of an element of this name and type. -/
def Describes (document : Document) (name ty : String) : Prop :=
  ∃ slots, PlainSlots slots ∧ document = insertSlots .empty
    (("name", some (.string name)) :: ("type", some (.string ty)) :: slots)

namespace Describes
variable {document : Document} {name ty : String}

theorem get?_name (h : Describes document name ty) :
    document.get? "name" = some (.string name) := by
  obtain ⟨slots, hplain, rfl⟩ := h
  rw [insertSlots_cons, insertSlots_cons,
    get?_insertSlots_of_not_mem (hplain "name" (by simp [RESERVED])),
    get?_insertSome_of_ne (show "name" ≠ "type" by decide)]
  exact IndexMap.get?_insert_self ..

theorem get?_type (h : Describes document name ty) :
    document.get? "type" = some (.string ty) := by
  obtain ⟨slots, hplain, rfl⟩ := h
  rw [insertSlots_cons, insertSlots_cons,
    get?_insertSlots_of_not_mem (hplain "type" (by simp [RESERVED]))]
  exact IndexMap.get?_insert_self ..

theorem get?_children (h : Describes document name ty) : document.get? "children" = none := by
  obtain ⟨slots, hplain, rfl⟩ := h
  rw [insertSlots_cons, insertSlots_cons,
    get?_insertSlots_of_not_mem (hplain "children" (by simp [RESERVED])),
    get?_insertSome_of_ne (show "children" ≠ "type" by decide),
    get?_insertSome_of_ne (show "children" ≠ "name" by decide)]
  exact IndexMap.get?_empty _

theorem retain (h : Describes document name ty) : document.retain ownKey = document := by
  refine IndexMap.retain_eq_self fun k hk => ?_
  have hne : k ≠ "children" := by
    rintro rfl
    exact IndexMap.get?_eq_none_iff.mp h.get?_children hk
  exact decide_eq_true hne

theorem offered (h : Describes document name ty) :
    offered document = if ty ∈ INTERACTION_TYPES then [name] else [] := by
  rw [Ui.offered, h.get?_type, h.get?_name]

end Describes

section Kinds
variable (toString : Json → String)

theorem describes_base (common : ElementCommon) (ty : String)
    {slots : List (String × Option Json)} (h : PlainSlots slots) :
    Describes (insertSlots (common.baseJson ty) slots) common.name ty := by
  refine ⟨(common.baseSlots ty).drop 2 ++ slots, plainSlots_append ?_ h, ?_⟩
  · simp [PlainSlots, RESERVED, ElementCommon.baseSlots]
  · rw [ElementCommon.baseJson, ← insertSlots_append]
    rfl

theorem describes_interactionJson (i : InteractionCommon) (ty : String)
    {slots : List (String × Option Json)} (h : PlainSlots slots) :
    Describes (insertSlots (i.interactionJson toString ty) slots) i.element.name ty := by
  rw [InteractionCommon.interactionJson, ← insertSlots_append]
  refine describes_base i.element ty (plainSlots_append ?_ h)
  simp [PlainSlots, RESERVED, InteractionCommon.slots]

theorem Interaction.describes (i : Interaction) :
    Describes (i.elementJson toString) i.common.element.name i.ty := by
  cases i with
  | switch s =>
    have hnone : PlainSlots [] := fun k _ => List.not_mem_nil
    exact describes_interactionJson toString s.interaction "uiSwitch" hnone
  | _ =>
    refine describes_interactionJson toString _ _ ?_
    simp [PlainSlots, RESERVED]

theorem Display.describes (d : Display) :
    Describes (d.elementJson toString) d.common.name d.ty := by
  cases d with
  | _ =>
    refine describes_base _ _ ?_
    simp [PlainSlots, RESERVED, cameraTail]

theorem ContainerKind.plainSlots {kind : ContainerKind} (h : kind.Plain) :
    PlainSlots (kind.slots toString) := by
  cases kind with
  | remoteComponent extras =>
    intro k hk hmem
    refine h k hk ?_
    rw [← IndexMap.map_fst_entries]
    rwa [ContainerKind.slots, List.map_map] at hmem
  | _ => simp [PlainSlots, RESERVED, ContainerKind.slots]

theorem Element.describes {e : Element} (h : e.Plain) :
    Describes (e.document toString) e.name e.ty := by
  cases e with
  | interaction i => exact i.describes toString
  | display d => exact d.describes toString
  | connectionInfo c =>
    refine ⟨_, ?_, rfl⟩
    simp [PlainSlots, RESERVED]
  | container common kind children =>
    rw [Element.Plain] at h
    exact describes_base common kind.ty (kind.plainSlots toString h.1)

theorem Interaction.ty_mem (i : Interaction) : i.ty ∈ INTERACTION_TYPES := by
  cases i <;> simp [Interaction.ty, INTERACTION_TYPES]

theorem Display.ty_not_mem (d : Display) : d.ty ∉ INTERACTION_TYPES := by
  cases d <;> simp [Display.ty, INTERACTION_TYPES]

theorem ContainerKind.ty_not_mem (kind : ContainerKind) : kind.ty ∉ INTERACTION_TYPES := by
  cases kind <;> simp [ContainerKind.ty, INTERACTION_TYPES]

end Kinds

/-! ## The tree that is read -/

/-- The names of siblings differ. -/
def DistinctNames (family : List Doover.ElementCommon) : Prop := (family.map (·.name)).Nodup

namespace Element
section Read
variable (toString : Json → String)

theorem plain_of_container {common : ElementCommon} {kind : ContainerKind}
    {children : List Element} (h : (container common kind children).Plain) :
    kind.Plain ∧ AllPlain children := by
  rwa [Plain] at h

/-- A document without children. -/
theorem readElement_document {e : Element} (h : e.Plain) :
    readElement (.object (e.document toString)) = .node (e.document toString) [] := by
  have hdescribes := e.describes toString h
  rw [readElement_object, hdescribes.retain, hdescribes.get?_children]
  rfl

theorem readElement_document_iff {e : Element} (h : e.Plain) :
    readElement (.object (e.document toString)) = .node (e.document toString) [] ↔
      ∀ family ∈ familiesIn (node e.place []), DistinctNames family := by
  refine iff_of_true (readElement_document toString h) fun family hfamily => ?_
  rw [familiesIn_node] at hfamily
  rw [List.mem_singleton.mp hfamily]
  exact List.nodup_nil

theorem readElement_container {common : ElementCommon} {kind : ContainerKind}
    {children : List Element} (h : (container common kind children).Plain) :
    readElement ((container common kind children).toJson toString) =
      .node ((container common kind children).document toString)
        (readChildren (.ofList (childrenJson toString children))) := by
  have hslots := kind.plainSlots toString (plain_of_container h).1
  have hnone : PlainSlots [] := fun k _ => List.not_mem_nil
  have hbase := describes_base common kind.ty hnone
  have hchildren : "children" ∉ (kind.slots toString).map Prod.fst :=
    hslots "children" (by simp [RESERVED])
  have hown : ∀ k ∈ (kind.slots toString).map Prod.fst, ownKey k = true := by
    intro k hk
    refine decide_eq_true fun hk' => hchildren ?_
    rwa [← hk']
  rw [toJson, readElement_object, get?_insertSlots_of_not_mem hchildren,
    IndexMap.get?_insert_self, retain_insertSlots hown,
    IndexMap.retain_insert_of_neg _ _ (show ownKey "children" = false from rfl)]
  refine congrArg (node · _) (congrArg (insertSlots · _) ?_)
  exact hbase.retain

theorem map_fst_childrenJson (children : List Element) :
    (childrenJson toString children).map Prod.fst = children.map name := by
  induction children with
  | nil => rw [childrenJson, List.map_nil, List.map_nil]
  | cons child children ih => rw [childrenJson, List.map_cons, List.map_cons, ih]

theorem length_documentsAll (children : List Element) :
    (documentsAll toString children).length = children.length := by
  induction children with
  | nil => rw [documentsAll, List.length_nil, List.length_nil]
  | cons child children ih => rw [documentsAll, List.length_cons, List.length_cons, ih]

theorem label_skeleton (e : Element) : e.skeleton.label = e.place := by
  cases e with
  | _ => rw [skeleton, label]

theorem map_label_skeletons (children : List Element) :
    (skeletons children).map label = children.map place := by
  induction children with
  | nil => rw [skeletons, List.map_nil, List.map_nil]
  | cons child children ih =>
    rw [skeletons, List.map_cons, List.map_cons, ih, label_skeleton]

/-- **One family.**  The map keyed by name has every child only if no two have the same
name, and then it is read child by child. -/
theorem readChildren_childrenJson_iff (children : List Element) :
    readChildren (.ofList (childrenJson toString children)) = documentsAll toString children ↔
      DistinctNames (children.map place) ∧
        (childrenJson toString children).map (fun entry => readElement entry.2) =
          documentsAll toString children := by
  have hnames : (children.map place).map (·.name) =
      (childrenJson toString children).map Prod.fst := by
    rw [map_fst_childrenJson, List.map_map]
    rfl
  rw [Json.ofList, readChildren_object, DistinctNames, hnames]
  constructor
  · intro h
    have hlength : (IndexMap.ofList (childrenJson toString children)).keys.length =
        (childrenJson toString children).length := by
      have hread := congrArg List.length h
      rw [List.length_map, length_documentsAll] at hread
      have hkeys := congrArg List.length
        (IndexMap.map_fst_entries (IndexMap.ofList (childrenJson toString children)))
      have hentries := congrArg List.length (map_fst_childrenJson toString children)
      rw [List.length_map] at hkeys
      rw [List.length_map, List.length_map] at hentries
      omega
    have hnodup := IndexMap.nodup_of_length_keys_ofList hlength
    rw [IndexMap.entries_ofList hnodup] at h
    exact ⟨hnodup, h⟩
  · rintro ⟨hnodup, h⟩
    rw [IndexMap.entries_ofList hnodup]
    exact h

mutual
/-- **An element is read back exactly when the families in it have distinct names.** -/
theorem readElement_toJson_iff : ∀ e : Element, e.Plain →
    (readElement (e.toJson toString) = e.documents toString ↔
      ∀ family ∈ familiesIn e.skeleton, DistinctNames family)
  | interaction i => fun h => by
    rw [toJson, documents, skeleton]
    exact readElement_document_iff toString h
  | display d => fun h => by
    rw [toJson, documents, skeleton]
    exact readElement_document_iff toString h
  | connectionInfo c => fun h => by
    rw [toJson, documents, skeleton]
    exact readElement_document_iff toString h
  | container common kind children => fun h => by
    rw [readElement_container toString h, documents, skeleton, familiesIn_node, families,
      List.forall_mem_cons, node.injEq, eq_self, true_and, readChildren_childrenJson_iff,
      readElements_iff children (plain_of_container h).2, map_label_skeletons]
theorem readElements_iff : ∀ children : List Element, AllPlain children →
    ((childrenJson toString children).map (fun entry => readElement entry.2) =
        documentsAll toString children ↔
      ∀ family ∈ familiesInAll (skeletons children), DistinctNames family)
  | [] => fun _ => by
    rw [childrenJson, documentsAll, skeletons, familiesInAll]
    exact iff_of_true rfl fun family hfamily => absurd hfamily List.not_mem_nil
  | child :: children => fun h => by
    rw [AllPlain] at h
    rw [childrenJson, documentsAll, skeletons, familiesInAll, List.forall_mem_append,
      List.map_cons, List.cons_eq_cons, readElement_toJson_iff child h.1,
      readElements_iff children h.2]
end

mutual
/-- What the documents offer are the names of the interactions. -/
theorem commandNames_documents : ∀ e : Element, e.Plain →
    commandNames (e.documents toString) = e.collect
  | interaction i => fun h => by
    rw [documents, commandNames, commandNamesAll, collect, (describes toString h).offered,
      if_pos (show (interaction i).ty ∈ _ from i.ty_mem), List.append_nil]
    rfl
  | display d => fun h => by
    rw [documents, commandNames, commandNamesAll, collect, (describes toString h).offered,
      if_neg (show (display d).ty ∉ _ from d.ty_not_mem), List.append_nil]
  | connectionInfo c => fun h => by
    rw [documents, commandNames, commandNamesAll, collect, (describes toString h).offered]
    rfl
  | container common kind children => fun h => by
    rw [documents, commandNames, collect, (describes toString h).offered,
      if_neg (show (container common kind children).ty ∉ _ from kind.ty_not_mem), List.nil_append,
      commandNamesAll_documentsAll children (plain_of_container h).2]
theorem commandNamesAll_documentsAll : ∀ children : List Element, AllPlain children →
    commandNamesAll (documentsAll toString children) = collectAll children
  | [] => fun _ => by rw [documentsAll, commandNamesAll, collectAll]
  | child :: children => fun h => by
    rw [AllPlain] at h
    rw [documentsAll, commandNamesAll, collectAll, commandNames_documents child h.1,
      commandNamesAll_documentsAll children h.2]
end

end Read

/-! ## Positions -/

theorem place_setPositionIfUnset (e : Element) (n : ℤ) :
    (e.setPositionIfUnset n).place = e.place.setPositionIfUnset n := by
  cases e with
  | interaction i => cases i <;> rfl
  | display d => cases d <;> rfl
  | connectionInfo c => rfl
  | container common kind children => rfl

mutual
theorem assignPositionsDepthFirst_skeleton : ∀ (e : Element) (counter : ℤ),
    Doover.assignPositionsDepthFirst e.skeleton counter =
      ((e.assignPositionsDepthFirst counter).1.skeleton, (e.assignPositionsDepthFirst counter).2)
  | interaction i, counter => by
    show (node ((interaction i).place.setPositionIfUnset _) [], _) = _
    rw [← place_setPositionIfUnset]
    rfl
  | display d, counter => by
    show (node ((display d).place.setPositionIfUnset _) [], _) = _
    rw [← place_setPositionIfUnset]
    rfl
  | connectionInfo c, counter => rfl
  | container common kind children, counter => by
    rw [skeleton, Doover.assignPositionsDepthFirst, assignPositions_skeletons children counter,
      assignPositionsDepthFirst]
    rfl
theorem assignPositions_skeletons : ∀ (children : List Element) (counter : ℤ),
    Doover.assignPositions (skeletons children) counter =
      (skeletons (assignPositions children counter).1, (assignPositions children counter).2)
  | [], counter => rfl
  | child :: children, counter => by
    rw [skeletons, Doover.assignPositions, assignPositionsDepthFirst_skeleton child counter,
      assignPositions]
    simp only [assignPositions_skeletons children]
    rfl
end

end Element

namespace UiTree
open Element
variable (ui : UiTree)

def positioned : PositionedUi := ⟨skeletons ui.children⟩

/-- **Finalizing the elements is finalizing their positions.** -/
theorem positioned_finalize : ui.finalize.positioned = ui.positioned.finalize := by
  rw [positioned, finalize, positioned, PositionedUi.finalize, assignPositions_skeletons]

/-- No container, nor the tree itself, holds two elements of one name. -/
def DistinctSiblings : Prop := ∀ family ∈ families ui.positioned.children, DistinctNames family

theorem distinctSiblings_finalize : ui.finalize.DistinctSiblings ↔ ui.DistinctSiblings := by
  have hnames : ∀ ui' : UiTree, ui'.DistinctSiblings ↔
      ∀ family ∈ families (maps Doover.ElementCommon.unplaced ui'.positioned.children),
        (family.map Prod.fst).Nodup := by
    intro ui'
    rw [families_maps, List.forall_mem_map]
    refine forall_congr' fun family => forall_congr' fun _ => ?_
    rw [DistinctNames, List.map_map]
    rfl
  rw [hnames, hnames, positioned_finalize, PositionedUi.maps_unplaced_finalize]

variable (toString : Json → String) (app : UiApplicationInfo)

theorem offered_application : offered (insertSlots .empty app.slots) = [] := by
  have htype : (insertSlots .empty app.slots).get? "type" = some (.string "uiApplication") := by
    have hslots : app.slots = app.slots.take 7 ++ [("type", some (.string "uiApplication")),
      ("name", some (.string "$config.app().APP_KEY"))] := rfl
    rw [hslots, insertSlots_append, insertSlots_cons, get?_insertSlots_of_not_mem (by simp)]
    exact IndexMap.get?_insert_self ..
  rw [offered, htype]
  cases (insertSlots .empty app.slots).get? "name" with
  | none => rfl
  | some name =>
    cases name with
    | string s => exact if_neg (by simp [INTERACTION_TYPES])
    | _ => rfl

theorem readElement_toSchema : readElement (ui.toSchema toString app) =
    .node (insertSlots .empty app.slots)
      (readChildren (.ofList (childrenJson toString ui.children))) := by
  have hown : (insertSlots .empty app.slots).retain ownKey = insertSlots .empty app.slots := by
    rw [retain_insertSlots (by simp [UiApplicationInfo.slots, ownKey])]
    rfl
  rw [toSchema, readElement_object, IndexMap.get?_insert_self,
    IndexMap.retain_insert_of_neg _ _ (show ownKey "children" = false from rfl), hown]
  rfl

/-- **Reading the published UI.**  The schema gives back every element's document, in the
order and nesting of the tree, exactly when no two siblings have the same name; what it
says to be interactions are then the interactions that commands are taken for. -/
theorem readElement_toSchema_iff (h : AllPlain ui.children) :
    (readElement (ui.toSchema toString app) =
        .node (insertSlots .empty app.slots) (documentsAll toString ui.children) ↔
      ui.DistinctSiblings) ∧
    (ui.DistinctSiblings →
      commandNames (readElement (ui.toSchema toString app)) = ui.interactionNames) := by
  have hread : readElement (ui.toSchema toString app) =
        .node (insertSlots .empty app.slots) (documentsAll toString ui.children) ↔
      ui.DistinctSiblings := by
    rw [readElement_toSchema, node.injEq, eq_self, true_and, readChildren_childrenJson_iff,
      readElements_iff toString ui.children h, DistinctSiblings, positioned, families,
      List.forall_mem_cons, map_label_skeletons]
  refine ⟨hread, fun hdistinct => ?_⟩
  rw [hread.mpr hdistinct, commandNames, offered_application,
    commandNamesAll_documentsAll toString ui.children h, interactionNames, List.nil_append]

/-- A container with a reading, a button, and a remote component that forwards its scale. -/
def pumpPanel : UiTree :=
  ⟨[.container { name := "pump", displayName := "Pump" } .container [
    .display (.timestamp ⟨{ name := "seen", displayName := "Seen" }, .missing, none, none⟩),
    .interaction (.button ⟨{ element := { name := "start", displayName := "Start" } }, none,
      none⟩),
    .container { name := "gauge", displayName := "Gauge" }
      (.remoteComponent (.ofList [("scale", .string "bar")])) []]]⟩

theorem pumpPanel_read :
    (readElement (pumpPanel.finalize.toSchema (fun _ => "") {}) =
        .node (insertSlots .empty ({} : UiApplicationInfo).slots)
          (documentsAll (fun _ => "") pumpPanel.finalize.children) ↔
      pumpPanel.finalize.DistinctSiblings) ∧
    (pumpPanel.finalize.DistinctSiblings →
      commandNames (readElement (pumpPanel.finalize.toSchema (fun _ => "") {})) =
        pumpPanel.finalize.interactionNames) := by
  have hgauge : (ContainerKind.remoteComponent (.ofList [("scale", .string "bar")])).Plain := by
    show ∀ k ∈ RESERVED, k ∉ ["scale"]
    decide
  exact readElement_toSchema_iff pumpPanel.finalize (fun _ => "") {}
    ⟨⟨trivial, trivial, trivial, ⟨hgauge, trivial⟩, trivial⟩, trivial⟩

/-- Of two buttons of one name the schema has one, and commands are taken for both. -/
def twoStarts : UiTree :=
  ⟨[.interaction (.button ⟨{ element := { name := "start", displayName := "Start" } }, none,
      none⟩),
    .interaction (.switch ⟨{ element := { name := "start", displayName := "Start again" } }⟩)]⟩

example : twoStarts.interactionNames = ["start", "start"] ∧
    commandNames (readElement (twoStarts.toSchema (fun _ => "") {})) = ["start"] := ⟨rfl, rfl⟩

end UiTree
end Ui
end Doover
