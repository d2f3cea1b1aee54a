import Doover.ConfigSchema
import Doover.JsonSchema

/-! # What the schema demands and what the loader does

The exported schema demands an element by a name in `required`, at the root or in the `then`
of a branch whose `if` accepts the config (`demands`).  The loader reports one that is not
there as missing.  They agree but for the form of numbers: the schema takes `1` and `1.0` for
the same value of a controller, and the loader's `==` does not (`loader_agrees_with_schema_iff`).
-/

namespace Doover
open Json

/-! ## Loops that may fail -/

section Loops
variable {ε α β σ : Type}

theorem bind_eq_ok {x : Except ε α} {f : α → Except ε β} {b : β} (h : x >>= f = .ok b) :
    ∃ a, x = .ok a ∧ f a = .ok b := by
  cases x with
  | error e => cases h
  | ok a => exact ⟨a, rfl, h⟩

theorem forall₂_of_mapM {f : α → Except ε β} {as : List α} {bs : List β}
    (h : as.mapM f = .ok bs) : List.Forall₂ (fun a b => f a = .ok b) as bs := by
  induction as generalizing bs with
  | nil =>
    cases h
    exact .nil
  | cons a as ih =>
    rw [List.mapM_cons] at h
    obtain ⟨b, hb, h⟩ := bind_eq_ok h
    obtain ⟨bs', hbs, h⟩ := bind_eq_ok h
    cases h
    exact .cons hb (ih hbs)

/-- What each step of a loop keeps holds of all that was looped over. -/
theorem foldlM_induction {f : σ → α → Except ε σ} {P : List α → σ → Prop}
    (hstep : ∀ done a s s', P done s → f s a = .ok s' → P (done ++ [a]) s')
    {as : List α} {done : List α} {s s' : σ} (hs : P done s) (h : as.foldlM f s = .ok s') :
    P (done ++ as) s' := by
  induction as generalizing done s with
  | nil =>
    cases h
    rwa [List.append_nil]
  | cons a as ih =>
    rw [List.foldlM_cons] at h
    obtain ⟨s'', ha, h⟩ := bind_eq_ok h
    have hrest := ih (hstep done a s s'' hs ha) h
    rwa [List.append_assoc] at hrest

theorem exists_of_mem_left {r : α → β → Prop} {as : List α} {bs : List β}
    (h : List.Forall₂ r as bs) {a : α} (ha : a ∈ as) : ∃ b ∈ bs, r a b := by
  induction h with
  | nil => cases ha
  | cons hr _ ih =>
    rcases List.mem_cons.mp ha with rfl | ha
    · exact ⟨_, List.mem_cons_self .., hr⟩
    · obtain ⟨b, hb, hab⟩ := ih ha
      exact ⟨b, List.mem_cons_of_mem _ hb, hab⟩

theorem exists_of_mem_right {r : α → β → Prop} {as : List α} {bs : List β}
    (h : List.Forall₂ r as bs) {b : β} (hb : b ∈ bs) : ∃ a ∈ as, r a b :=
  exists_of_mem_left h.flip hb

end Loops

/-! ## Loading -/

section Loading
variable {α : Type} {fromConfigValue : Json → Except String α} {key : String}

theorem ne_requiredMissing {what : String} {c : Char} (hwhat : what.toList.head? = some c)
    (hc : c ≠ 'r') (text : String) : what ++ text ≠ requiredMissing key := by
  intro h
  have hrequired : requiredMissing key =
      "required config element '" ++ (key ++ "' not found in deployment config") :=
    String.append_assoc
  have hr : "required config element '".toList.head? = some 'r' := by simp
  rw [hrequired] at h
  have hhead := congrArg (fun s : String => s.toList.head?) h
  simp only [String.toList_append, List.head?_append, hwhat, hr, Option.some_or,
    Option.some.injEq] at hhead
  exact hc hhead

/-- A value that does not read is not reported as missing. -/
theorem readConfigValue_ne {what : String} {v : Json}
    (h : ∀ text, what ++ text ≠ requiredMissing key) :
    readConfigValue fromConfigValue what v ≠ .error (requiredMissing key) := by
  intro herror
  unfold readConfigValue at herror
  cases hv : fromConfigValue v with
  | ok a =>
    rw [hv] at herror
    cases herror
  | error e =>
    rw [hv] at herror
    have htext : what ++ ": " ++ e = requiredMissing key := Except.error.inj herror
    rw [String.append_assoc] at htext
    exact h _ htext

/-- **The loader.**  An absent element is reported missing when it is required and active. -/
theorem loadElementIn_missing_iff {v : Json} {el : ElementSchema} {siblings : List ElementSchema}
    (habsent : v.get? el.name = none) :
    loadElementIn fromConfigValue v el siblings = .error (requiredMissing el.name) ↔
      el.isRequired = true ∧ el.conditionHolds v siblings = true := by
  have hc : "config element '".toList.head? = some 'c' := by simp
  have hi : "inactive conditional ".toList.head? = some 'i' := by simp
  unfold loadElementIn
  simp only [habsent, Option.isNone_none, Bool.true_and]
  cases hholds : el.conditionHolds v siblings with
  | false =>
    refine iff_of_false ?_ fun h => Bool.false_ne_true h.2
    refine readConfigValue_ne fun text => ?_
    rw [String.append_assoc]
    exact ne_requiredMissing hi (by decide) _
  | true =>
    cases hrequired : el.isRequired with
    | false =>
      refine iff_of_false ?_ fun h => Bool.false_ne_true h.1
      refine readConfigValue_ne fun text => ?_
      rw [String.append_assoc, String.append_assoc, String.append_assoc]
      exact ne_requiredMissing hc (by decide) _
    | true => exact iff_of_true rfl ⟨rfl, rfl⟩

end Loading

/-! ## The export of one object level -/

theorem Condition.beq_iff {c d : Condition} :
    (c == d) = true ↔
      c.element = d.element ∧ c.comparator = d.comparator ∧ Json.beq c.value d.value = true := by
  show (c.element == d.element && c.comparator == d.comparator && c.value == d.value) = true ↔ _
  rw [Bool.and_eq_true, Bool.and_eq_true, beq_iff_eq, beq_iff_eq, and_assoc]
  exact Iff.rfl

/-- What joining a group leaves: the element is in a group of its own controller and
condition, every other element where it was. -/
theorem mem_addToGroups {controller : String} {condition : Condition} {e m : Exported}
    {gs : List Group} {g : Group} (hg : g ∈ addToGroups controller condition e gs)
    (hm : m ∈ g.members) :
    (m = e ∧ g.controller = controller ∧ (g.condition == condition) = true) ∨
      ∃ g' ∈ gs, m ∈ g'.members ∧ g'.controller = g.controller ∧ g'.condition = g.condition := by
  induction gs with
  | nil =>
    obtain rfl := List.mem_singleton.mp hg
    exact Or.inl ⟨List.mem_singleton.mp hm, rfl, Condition.beq_iff.mpr ⟨rfl, rfl, beq_refl _⟩⟩
  | cons g' gs ih =>
    rw [addToGroups] at hg
    split at hg
    · rename_i hsame
      rw [Bool.and_eq_true, beq_iff_eq] at hsame
      rcases List.mem_cons.mp hg with rfl | hg
      · rcases List.mem_append.mp hm with hm | hm
        · exact Or.inr ⟨g', List.mem_cons_self .., hm, rfl, rfl⟩
        · exact Or.inl ⟨List.mem_singleton.mp hm, hsame⟩
      · exact Or.inr ⟨g, List.mem_cons_of_mem _ hg, hm, rfl, rfl⟩
    · rcases List.mem_cons.mp hg with rfl | hg
      · exact Or.inr ⟨g, List.mem_cons_self .., hm, rfl, rfl⟩
      · refine (ih hg).imp_right fun h => ?_
        obtain ⟨g'', hg'', h⟩ := h
        exact ⟨g'', List.mem_cons_of_mem _ hg'', h⟩

theorem exists_group_self (controller : String) (condition : Condition) (e : Exported)
    (gs : List Group) : ∃ g ∈ addToGroups controller condition e gs, e ∈ g.members := by
  induction gs with
  | nil => exact ⟨_, List.mem_singleton_self _, List.mem_singleton_self _⟩
  | cons g gs ih =>
    rw [addToGroups]
    split
    · exact ⟨_, List.mem_cons_self .., List.mem_append_right _ (List.mem_singleton_self e)⟩
    · obtain ⟨g', hg', he⟩ := ih
      exact ⟨g', List.mem_cons_of_mem _ hg', he⟩

theorem exists_group_of_mem {controller : String} {condition : Condition} {e m : Exported}
    {gs : List Group} (h : ∃ g ∈ gs, m ∈ g.members) :
    ∃ g ∈ addToGroups controller condition e gs, m ∈ g.members := by
  obtain ⟨g, hg, hm⟩ := h
  induction gs with
  | nil => cases hg
  | cons g' gs ih =>
    rw [addToGroups]
    split
    · rcases List.mem_cons.mp hg with rfl | hg
      · exact ⟨_, List.mem_cons_self .., List.mem_append_left _ hm⟩
      · exact ⟨g, List.mem_cons_of_mem _ hg, hm⟩
    · rcases List.mem_cons.mp hg with rfl | hg
      · exact ⟨g, List.mem_cons_self .., hm⟩
      · obtain ⟨g'', hg'', hm''⟩ := ih hg
        exact ⟨g'', List.mem_cons_of_mem _ hg'', hm''⟩

/-- The loop midway: where the elements that were visited are. -/
structure Split.Visited (done : List Exported) (s : Split) : Prop where
  required : s.required = (done.filter fun e => e.1.showIf.isNone && e.1.isRequired).map
    fun e => .string e.1.name
  members : ∀ g ∈ s.groups, ∀ e ∈ g.members, e ∈ done ∧
    ∃ c, e.1.showIf = some c ∧ c.element = g.controller ∧ (g.condition == c) = true
  grouped : ∀ e ∈ done, e.1.showIf.isSome = true → ∃ g ∈ s.groups, e ∈ g.members

/-- **One element.** -/
theorem Split.Visited.add {elements : List ElementSchema} {done : List Exported} {e : Exported}
    {s s' : Split} (h : Split.Visited done s) (hadd : s.add elements e = .ok s') :
    Split.Visited (done ++ [e]) s' := by
  have hmembers : ∀ g ∈ s.groups, ∀ m ∈ g.members, m ∈ done ++ [e] ∧
      ∃ c, m.1.showIf = some c ∧ c.element = g.controller ∧ (g.condition == c) = true := by
    intro g hg m hm
    obtain ⟨hdone, hc⟩ := h.members g hg m hm
    exact ⟨List.mem_append_left _ hdone, hc⟩
  unfold Split.add at hadd
  cases hshow : e.1.showIf with
  | none =>
    simp only [hshow] at hadd
    obtain ⟨json, -, hadd⟩ := bind_eq_ok hadd
    cases hadd
    refine ⟨?_, hmembers, ?_⟩
    · cases hr : e.1.isRequired <;> simp [hshow, hr, h.required]
    · intro m hm hsome
      rcases List.mem_append.mp hm with hm | hm
      · exact h.grouped m hm hsome
      · obtain rfl := List.mem_singleton.mp hm
        rw [hshow] at hsome
        cases hsome
  | some condition =>
    simp only [hshow] at hadd
    cases hfind : elements.find? (·.name == condition.element) with
    | none =>
      simp only [hfind] at hadd
      cases hadd
    | some controller =>
      have hname : controller.name = condition.element := by
        simpa using List.find?_some hfind
      simp only [hfind] at hadd
      split at hadd
      · cases hadd
      · split at hadd
        · cases hadd
        · cases hadd
          refine ⟨?_, ?_, ?_⟩
          · simp [hshow, h.required]
          · intro g hg m hm
            rcases mem_addToGroups hg hm with ⟨rfl, hctl, hcond⟩ | ⟨g', hg', hm', hctl, hcond⟩
            · refine ⟨List.mem_append_right _ (List.mem_singleton_self _), condition, hshow, ?_, hcond⟩
              rw [hctl, hname]
            · rw [← hctl, ← hcond]
              exact hmembers g' hg' m hm'
          · intro m hm hsome
            rcases List.mem_append.mp hm with hm | hm
            · exact exists_group_of_mem (h.grouped m hm hsome)
            · obtain rfl := List.mem_singleton.mp hm
              exact exists_group_self ..

/-- What the export of an object level is made of. -/
theorem buildObjectSchema_ok {exported : List Exported} {o : ObjectSchema}
    (h : buildObjectSchema exported = .ok o) :
    ∃ s, Split.Visited exported s ∧ o.required = s.required ∧
      List.Forall₂ (fun g b => Group.branch (exported.map (·.1)) g = .ok b) s.groups o.allOf := by
  obtain ⟨s, hs, h⟩ := bind_eq_ok h
  obtain ⟨allOf, hall, h⟩ := bind_eq_ok h
  cases h
  have hempty : Split.Visited [] ⟨.empty, [], []⟩ :=
    ⟨rfl, fun g hg => absurd hg List.not_mem_nil, fun e he => absurd he List.not_mem_nil⟩
  have hvisited : Split.Visited ([] ++ exported) s :=
    foldlM_induction (fun done e s s' hv hadd => hv.add hadd) hempty hs
  exact ⟨s, hvisited, rfl, forall₂_of_mapM hall⟩

/-! ## Conditions -/

/-- The condition's test, as the schema has it. -/
def Condition.schemaMatches (c : Condition) (v : Json) : Bool :=
  match c.comparator with
  | .equal => schemaEq v c.value
  | .isIn => (items (some c.value)).any fun choice => schemaEq v choice

theorem Condition.validates_toTest (c : Condition) (v : Json) :
    validates c.toTest v = c.schemaMatches v := by
  rw [Bool.eq_iff_iff]
  unfold Condition.toTest Condition.schemaMatches
  have hget : ∀ key k : String, (IndexMap.ofList [(key, c.value)]).get? k =
      if k = key then some c.value else none := fun key k => get?_ofList_singleton key k c.value
  cases c.comparator with
  | equal =>
    refine (validates_object_iff (m := IndexMap.ofList [("const", c.value)])).trans ?_
    simp [hget]
  | isIn =>
    refine (validates_object_iff (m := IndexMap.ofList [("enum", c.value)])).trans ?_
    simp [hget]

theorem any_items (j : Json) (p : Json → Bool) :
    (j.asArray.any fun values => values.any p) = (items (some j)).any p := by
  cases j <;> rfl

/-- Equal values list equal items. -/
theorem items_of_beq {i j : Json} (h : Json.beq i j = true) :
    List.Forall₂ (fun x y => Json.beq x y = true) (items (some i)) (items (some j)) := by
  cases i with
  | array xs =>
    cases j with
    | array ys =>
      rw [beq_eq_eqBy, eqBy, eqListBy_iff_forall₂] at h
      exact h.imp fun x y hxy => by rwa [beq_eq_eqBy]
    | _ => cases h
  | _ => cases j <;> first | exact .nil | cases h

theorem any_congr_of_forall₂ {β : Type} {r : β → β → Prop} {p : β → Bool} {xs ys : List β}
    (h : List.Forall₂ r xs ys) (hp : ∀ x y, r x y → p x = p y) : xs.any p = ys.any p := by
  induction h with
  | nil => rfl
  | cons hxy _ ih => rw [List.any_cons, List.any_cons, hp _ _ hxy, ih]

theorem schemaEq_congr {v i j : Json} (h : Json.beq i j = true) :
    schemaEq v i = schemaEq v j := by
  rw [Bool.eq_iff_iff]
  exact ⟨fun hv => schemaEq_trans hv (beq_iff.mp h).1,
    fun hv => schemaEq_trans hv (schemaEq_symm (beq_iff.mp h).1)⟩

theorem beq_congr {v i j : Json} (h : Json.beq i j = true) : Json.beq v i = Json.beq v j := by
  rw [Bool.eq_iff_iff]
  exact ⟨fun hv => beq_trans hv h, fun hv => beq_trans hv (beq_symm h)⟩

theorem Condition.schemaMatches_congr {c d : Condition} (h : (c == d) = true) (v : Json) :
    c.schemaMatches v = d.schemaMatches v := by
  obtain ⟨-, hcomparator, hvalue⟩ := Condition.beq_iff.mp h
  unfold Condition.schemaMatches
  rw [hcomparator]
  cases d.comparator with
  | equal => exact schemaEq_congr hvalue
  | isIn => exact any_congr_of_forall₂ (items_of_beq hvalue) fun x y hxy => schemaEq_congr hxy

theorem Condition.matchesActual_congr {c d : Condition} (h : (c == d) = true)
    (actual : Option Json) : c.matchesActual actual = d.matchesActual actual := by
  obtain ⟨-, hcomparator, hvalue⟩ := Condition.beq_iff.mp h
  unfold Condition.matchesActual
  rw [hcomparator]
  cases actual with
  | none => cases d.comparator <;> rfl
  | some actual =>
    cases d.comparator with
    | equal => exact beq_congr hvalue
    | isIn =>
      show (c.value.asArray.any fun values => values.any (· == actual)) =
        d.value.asArray.any fun values => values.any (· == actual)
      rw [any_items, any_items]
      refine any_congr_of_forall₂ (items_of_beq hvalue) fun x y hxy => ?_
      rw [Bool.eq_iff_iff]
      exact ⟨fun hx => beq_trans (beq_symm hxy) hx, fun hy => beq_trans hxy hy⟩

/-! ## What the schema demands -/

/-- The name is in `required`, or in that of a branch whose `if` accepts the config. -/
def demands (schema config : Json) (name : String) : Bool :=
  (strings (schema.get? "required")).contains name ||
    (items (schema.get? "allOf")).any fun branch =>
      (branch.get? "if").any (fun test => validates test config) &&
        (strings ((branch.get? "then").bind fun t => t.get? "required")).contains name

/-- Whether an element is active for the schema: its controller passes the test, or has a
default that meets the condition and is not in the config. -/
def ElementSchema.schemaActive (el : ElementSchema) (config : Json)
    (siblings : List ElementSchema) : Bool :=
  match el.showIf with
  | none => true
  | some c =>
    match config.get? c.element with
    | some v => c.schemaMatches v
    | none => c.matchesActual ((siblings.find? (·.name == c.element)).bind (·.default))

theorem strings_map_string {β : Type} (name : β → String) (l : List β) :
    strings (some (.array (l.map fun e => .string (name e)))) = l.map name := by
  show (l.map fun e => Json.string (name e)).filterMap asStr = _
  rw [List.filterMap_map]
  induction l with
  | nil => rfl
  | cons e l ih => rw [List.filterMap_cons, List.map_cons, ih]; rfl

/-- **The `if` of a branch.** -/
theorem Group.validates_ifSchema {elements : List ElementSchema} {g : Group} {config : Json}
    (hconfig : config.isObject = true) :
    validates (g.ifSchema elements) config =
      match config.get? g.controller with
      | some v => g.condition.schemaMatches v
      | none =>
        g.condition.matchesActual ((elements.find? (·.name == g.controller)).bind (·.default)) := by
  rw [Bool.eq_iff_iff]
  have hproperties : validatesProperties (Json.ofList [(g.controller, g.condition.toTest)]) config =
      true ↔ ∀ v, config.get? g.controller = some v → g.condition.schemaMatches v = true := by
    refine (validatesProperties_object_iff
      (m := IndexMap.ofList [(g.controller, g.condition.toTest)])).trans ?_
    have hget : ∀ k, (IndexMap.ofList [(g.controller, g.condition.toTest)]).get? k =
        if k = g.controller then some g.condition.toTest else none :=
      fun k => get?_ofList_singleton g.controller k g.condition.toTest
    constructor
    · intro h v hv
      rw [← Condition.validates_toTest]
      exact h g.controller _ ((hget _).trans (if_pos rfl)) v hv
    · intro h k schema hk property hproperty
      rw [hget] at hk
      split at hk
      · rename_i hctl
        obtain rfl := Option.some.inj hk
        rw [Condition.validates_toTest]
        exact h property (hctl ▸ hproperty)
      · cases hk
  unfold Group.ifSchema
  simp only
  split
  · -- the default meets the condition: an absent controller is let through
    rename_i hdefault
    rw [validates_object_iff]
    cases hctl : config.get? g.controller <;>
      simp [IndexMap.get?_insert, hproperties, hctl, hdefault]
  · rename_i hdefault
    rw [validates_object_iff]
    cases hctl : config.get? g.controller <;>
      simp [IndexMap.get?_insert, hproperties, hctl, hdefault, hconfig, strings, items, asArray,
        asStr]

/-- Each member is active where the `if` of its branch accepts. -/
theorem Group.validates_ifSchema_of_mem {elements : List ElementSchema} {g : Group}
    {el : ElementSchema} {c : Condition} {config : Json} (hconfig : config.isObject = true)
    (hshow : el.showIf = some c) (hcontroller : c.element = g.controller)
    (hcondition : (g.condition == c) = true) :
    validates (g.ifSchema elements) config = el.schemaActive config elements := by
  rw [Group.validates_ifSchema hconfig]
  unfold ElementSchema.schemaActive
  simp only [hshow, hcontroller]
  cases config.get? g.controller with
  | none => exact Condition.matchesActual_congr hcondition _
  | some v => exact Condition.schemaMatches_congr hcondition v

/-- The names that the `then` of a branch demands. -/
theorem Group.strings_thenSchema (g : Group) (properties : List (String × Json)) :
    strings ((g.thenSchema properties).get? "required") =
      (g.members.filter (·.1.isRequired)).map (·.1.name) := by
  unfold Group.thenSchema
  simp only
  split
  · rename_i hempty
    rw [List.isEmpty_iff, List.map_eq_nil_iff] at hempty
    rw [hempty, get?_object, IndexMap.get?_insert, if_neg (by decide), IndexMap.get?_empty]
    rfl
  · rw [get?_object, IndexMap.get?_insert_self]
    exact strings_map_string ..

/-- What a branch demands: a required member whose `if` accepts. -/
theorem Group.branch_demands_iff {elements : List ElementSchema} {g : Group} {branch config : Json}
    {name : String} (h : g.branch elements = .ok branch) :
    ((branch.get? "if").any (fun test => validates test config) &&
      (strings ((branch.get? "then").bind fun t => t.get? "required")).contains name) = true ↔
      validates (g.ifSchema elements) config = true ∧
        ∃ e ∈ g.members, e.1.isRequired = true ∧ e.1.name = name := by
  obtain ⟨properties, -, h⟩ := bind_eq_ok h
  cases h
  have hif : (Json.ofList [("if", g.ifSchema elements), ("then", g.thenSchema properties)]).get?
      "if" = some (g.ifSchema elements) := rfl
  have hthen : (Json.ofList [("if", g.ifSchema elements), ("then", g.thenSchema properties)]).get?
      "then" = some (g.thenSchema properties) := rfl
  rw [hif, hthen, Option.any_some, Option.bind_some, Group.strings_thenSchema, Bool.and_eq_true,
    List.contains_iff_mem, List.mem_map]
  refine and_congr Iff.rfl (exists_congr fun e => ?_)
  rw [List.mem_filter, and_assoc]

section Schema
variable {toString : Json → String} {schema : SchemaModel} {json config : Json}
  {el : ElementSchema}

theorem exportAll_eq (els : List ElementSchema) :
    exportAll toString els = els.map fun el => (el, el.toJson toString) := by
  induction els with
  | nil => rfl
  | cons el els ih => rw [exportAll, ih, List.map_cons]

theorem map_fst_exportAll (els : List ElementSchema) :
    (exportAll toString els).map (·.1) = els := by
  rw [exportAll_eq, List.map_map]
  exact List.map_id els

/-- What the root schema has of the export of its elements. -/
theorem SchemaModel.toJson_ok (h : schema.toJson toString = .ok json) :
    ∃ o, buildObjectSchema (exportAll toString schema.elements) = .ok o ∧
      json.get? "required" = some (.array o.required) ∧ items (json.get? "allOf") = o.allOf := by
  obtain ⟨o, ho, h⟩ := bind_eq_ok h
  cases h
  refine ⟨o, ho, ?_, ?_⟩
  · cases schema.advanced <;> cases hall : o.allOf.isEmpty <;>
      simp [insertSome, IndexMap.get?_insert]
  · cases schema.advanced <;> cases hall : o.allOf.isEmpty <;>
      simp_all [insertSome, IndexMap.get?_insert, items, asArray]

/-- **The schema.**  It demands an element that is required and active for it. -/
theorem demands_iff (h : schema.toJson toString = .ok json)
    (hnames : (schema.elements.map (·.name)).Nodup) (hconfig : config.isObject = true)
    (hel : el ∈ schema.elements) :
    demands json config el.name = true ↔
      el.isRequired = true ∧ el.schemaActive config schema.elements = true := by
  obtain ⟨o, ho, hrequired, hallOf⟩ := SchemaModel.toJson_ok h
  obtain ⟨s, hs, hsplit, hbranches⟩ := buildObjectSchema_ok ho
  rw [map_fst_exportAll] at hbranches
  -- an exported element of that name is the element
  have hself : ∀ e ∈ exportAll toString schema.elements, e.1.name = el.name → e.1 = el := by
    intro e he hname
    rw [exportAll_eq] at he
    obtain ⟨el', hel', rfl⟩ := List.mem_map.mp he
    exact List.inj_on_of_nodup_map hnames hel' hel hname
  have hmem : (el, el.toJson toString) ∈ exportAll toString schema.elements := by
    rw [exportAll_eq]
    exact List.mem_map_of_mem hel
  rw [demands, Bool.or_eq_true, hrequired, hallOf, hsplit, hs.required, strings_map_string,
    List.contains_iff_mem, List.mem_map, List.any_eq_true]
  constructor
  · rintro (⟨e, he, hname⟩ | ⟨branch, hbranch, hdemands⟩)
    · -- at the root, where no conditional element is
      rw [List.mem_filter, Bool.and_eq_true] at he
      rw [← hself e he.1 hname, ElementSchema.schemaActive, Option.isNone_iff_eq_none.mp he.2.1]
      exact ⟨he.2.2, rfl⟩
    · -- in a branch, whose members share its controller and condition
      obtain ⟨g, hg, hok⟩ := exists_of_mem_right hbranches hbranch
      obtain ⟨haccepts, e, he, hrequired, hname⟩ := (Group.branch_demands_iff hok).mp hdemands
      obtain ⟨hexported, c, hshow, hcontroller, hcondition⟩ := hs.members g hg e he
      rw [← hself e hexported hname]
      rw [Group.validates_ifSchema_of_mem hconfig hshow hcontroller hcondition] at haccepts
      exact ⟨hrequired, haccepts⟩
  · rintro ⟨hrequired, hactive⟩
    cases hshow : el.showIf with
    | none =>
      refine Or.inl ⟨_, List.mem_filter.mpr ⟨hmem, ?_⟩, rfl⟩
      rw [hshow, hrequired]
      rfl
    | some c =>
      obtain ⟨g, hg, he⟩ := hs.grouped _ hmem (Option.isSome_iff_exists.mpr ⟨c, hshow⟩)
      obtain ⟨branch, hbranch, hok⟩ := exists_of_mem_left hbranches hg
      obtain ⟨-, c', hshow', hcontroller, hcondition⟩ := hs.members g hg _ he
      refine Or.inr ⟨branch, hbranch, (Group.branch_demands_iff hok).mpr ⟨?_, _, he, hrequired, rfl⟩⟩
      rw [Group.validates_ifSchema_of_mem hconfig hshow' hcontroller hcondition]
      exact hactive

/-! ## Where they agree -/

/-- The value is one that the condition asks for but for the form of a number, `1` for `1.0`. -/
def Condition.FormDiffers (c : Condition) (v : Json) : Prop :=
  match c.comparator with
  | .equal => schemaEq v c.value = true ∧ sameForms v c.value = false
  | .isIn => (∃ choice ∈ items (some c.value), schemaEq v choice = true) ∧
      ∀ choice ∈ items (some c.value), schemaEq v choice = true → sameForms v choice = false

theorem Condition.matchesActual_some_iff {c : Condition} {v : Json} :
    c.matchesActual (some v) = true ↔
      match c.comparator with
      | .equal => Json.beq v c.value = true
      | .isIn => ∃ choice ∈ items (some c.value), Json.beq v choice = true := by
  unfold Condition.matchesActual
  cases c.comparator with
  | equal => exact Iff.rfl
  | isIn =>
    show (c.value.asArray.any fun values => values.any (· == v)) = true ↔ _
    rw [any_items, List.any_eq_true]
    refine exists_congr fun choice => and_congr Iff.rfl ?_
    exact ⟨fun h => beq_symm h, fun h => beq_symm h⟩

/-- What meets the condition passes the test. -/
theorem Condition.schemaMatches_of_matchesActual {c : Condition} {v : Json}
    (h : c.matchesActual (some v) = true) : c.schemaMatches v = true := by
  rw [Condition.matchesActual_some_iff] at h
  unfold Condition.schemaMatches
  cases hc : c.comparator with
  | equal =>
    simp only [hc] at h
    exact (Json.beq_iff.mp h).1
  | isIn =>
    simp only [hc] at h
    obtain ⟨choice, hchoice, heq⟩ := h
    exact List.any_eq_true.mpr ⟨choice, hchoice, (Json.beq_iff.mp heq).1⟩

/-- The test and the condition part on a value that differs in form only. -/
theorem Condition.formDiffers_iff {c : Condition} {v : Json} :
    c.FormDiffers v ↔ c.schemaMatches v = true ∧ ¬ c.matchesActual (some v) = true := by
  rw [Condition.matchesActual_some_iff]
  unfold Condition.FormDiffers Condition.schemaMatches
  cases c.comparator with
  | equal =>
    simp only
    rw [Json.beq_iff, ← Bool.not_eq_true]
    exact and_congr_right fun h => not_congr (and_iff_right h).symm
  | isIn =>
    simp only
    rw [List.any_eq_true]
    refine and_congr_right fun _ => ?_
    simp only [Json.beq_iff, not_exists, not_and, Bool.not_eq_true]

/-- **Agreement.**  The loader reports an absent element as missing just when the schema
demands it, unless the element is required and its controller has a value the condition asks
for in another form. -/
theorem loader_agrees_with_schema_iff {α : Type} (fromConfigValue : Json → Except String α)
    (h : schema.toJson toString = .ok json) (hnames : (schema.elements.map (·.name)).Nodup)
    (hconfig : config.isObject = true) (hel : el ∈ schema.elements)
    (habsent : config.get? el.name = none) :
    (loadElementIn fromConfigValue config el schema.elements = .error (requiredMissing el.name) ↔
      demands json config el.name = true) ↔
      (el.isRequired = true →
        ∀ c v, el.showIf = some c → config.get? c.element = some v → ¬ c.FormDiffers v) := by
  rw [loadElementIn_missing_iff habsent, demands_iff h hnames hconfig hel, and_congr_right_iff]
  refine imp_congr_right fun _ => ?_
  unfold ElementSchema.conditionHolds ElementSchema.schemaActive
  cases hshow : el.showIf with
  | none => exact iff_of_true Iff.rfl fun c v hc => by cases hc
  | some c =>
    cases hv : config.get? c.element with
    | none =>
      -- both go by the controller's default
      simp only [hv]
      refine iff_of_true trivial fun c' v hc hv' => ?_
      obtain rfl := Option.some.inj hc
      cases hv.symm.trans hv'
    | some v =>
      simp only [hv]
      constructor
      · intro hiff c' v' hc hv' hdiffers
        obtain rfl := Option.some.inj hc
        obtain rfl := Option.some.inj (hv.symm.trans hv')
        obtain ⟨hschema, hloader⟩ := Condition.formDiffers_iff.mp hdiffers
        exact hloader (hiff.mpr hschema)
      · intro hforms
        refine ⟨Condition.schemaMatches_of_matchesActual, fun hschema => ?_⟩
        by_contra hloader
        exact hforms c v rfl hv (Condition.formDiffers_iff.mpr ⟨hschema, hloader⟩)

end Schema

/-! ### A depth asked for at level `1.0` -/

/-- `1.0`. -/
def oneF64 : F64 := ⟨1, 1, 0, by decide, by omega, by omega, by simp⟩

def depthElement : ElementSchema :=
  { ElementSchema.number "Depth" "depth" with
    showIf := some (.equal "level" (.number (.float oneF64))) }

def levelSchema : SchemaModel := ⟨none, none, [.number "Level" "level", depthElement]⟩

/-- An optional double. -/
def optionF64 : Json → Except String (Option ℚ)
  | .null => .ok none
  | .number n => .ok (some n.asF64)
  | _ => .error "expected f64"

/-- The config has the level as `1`. -/
theorem depth_demanded_not_missed :
    let config := Json.ofList [("level", Json.ofU64 1)]
    ∃ json, levelSchema.toJson (fun _ => "") = .ok json ∧
      config.get? "depth" = none ∧ demands json config "depth" = true ∧
      loadElementIn optionF64 config depthElement levelSchema.elements = .ok none := by
  refine ⟨_, rfl, rfl, ?_, rfl⟩
  decide

/-- The config has the level as `1.0`, and both ask for the depth. -/
theorem agrees_at_same_form :
    let config := Json.ofList [("level", .number (.float oneF64))]
    ∃ json, levelSchema.toJson (fun _ => "") = .ok json ∧
      (loadElementIn optionF64 config depthElement levelSchema.elements =
        .error (requiredMissing "depth") ↔ demands json config "depth" = true) := by
  intro config
  have hel : depthElement ∈ levelSchema.elements :=
    List.mem_cons_of_mem _ (List.mem_singleton_self _)
  refine ⟨_, rfl, (loader_agrees_with_schema_iff optionF64 rfl (by decide) rfl hel rfl).mpr ?_⟩
  intro _ c v hc hv hdiffers
  obtain rfl := Option.some.inj hc
  obtain rfl := Option.some.inj hv
  exact Bool.noConfusion hdiffers.2

end Doover
