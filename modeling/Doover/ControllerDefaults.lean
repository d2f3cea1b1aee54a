import Doover.SchemaAgreement

/-! # The value of a controller

The loader reads a controller that is null in the config as one that is not there: it has its
default.  The condition of an element that depends on it takes null for its value.

The two agree exactly when the condition says the same of null and of the default, or the
config has no null there (`followsController_iff`).
-/

namespace Doover
open Json

/-! ## Accepted lists -/

section Accepted
variable {elements : List ElementSchema} {el controller : ElementSchema} {condition : Condition}

/-- The controller of `el` is another element, and always active. -/
def ElementSchema.Controlled (elements : List ElementSchema) (el : ElementSchema) : Prop :=
  ∀ condition, el.showIf = some condition →
    ∃ c, elements.find? (·.name == condition.element) = some c ∧ c.name ≠ el.name ∧
      c.showIf = none

theorem Split.add_controlled {s s' : Split} {e : Exported} (h : s.add elements e = .ok s') :
    e.1.Controlled elements := by
  intro condition hshow
  unfold Split.add at h
  simp only [hshow] at h
  cases hfind : elements.find? (·.name == condition.element) with
  | none =>
    simp only [hfind] at h
    cases h
  | some c =>
    simp only [hfind] at h
    split at h
    · cases h
    · rename_i hself
      split at h
      · cases h
      · rename_i hconditional
        refine ⟨c, rfl, fun heq => hself ?_, by simpa using hconditional⟩
        rw [heq, beq_self_eq_true]

theorem buildObjectSchema_controlled {exported : List Exported} {o : ObjectSchema}
    (h : buildObjectSchema exported = .ok o) {e : Exported} (he : e ∈ exported) :
    e.1.Controlled (exported.map (·.1)) := by
  obtain ⟨s, hs, -⟩ := bind_eq_ok h
  have hall : ∀ e ∈ [] ++ exported, e.1.Controlled (exported.map (·.1)) := by
    refine foldlM_induction (P := fun done _ => ∀ e ∈ done, e.1.Controlled (exported.map (·.1)))
      (fun done a s s' hdone hadd e he => ?_) (fun e he => absurd he List.not_mem_nil) hs
    rcases List.mem_append.mp he with he | he
    · exact hdone e he
    · obtain rfl := List.mem_singleton.mp he
      exact Split.add_controlled hadd
  exact hall e he

/-- Names being distinct, the controller is the element of that name. -/
theorem ElementSchema.Controlled.of_name (h : el.Controlled elements)
    (hnames : (elements.map (·.name)).Nodup) (hcontroller : controller ∈ elements)
    (hshow : el.showIf = some condition) (hname : controller.name = condition.element) :
    elements.find? (·.name == condition.element) = some controller ∧
      controller.name ≠ el.name ∧ controller.showIf = none := by
  obtain ⟨c, hfind, hother, hactive⟩ := h condition hshow
  have hc : c.name = condition.element := by simpa using List.find?_some hfind
  obtain rfl : c = controller :=
    List.inj_on_of_nodup_map hnames (List.mem_of_find?_eq_some hfind) hcontroller
      (hc.trans hname.symm)
  exact ⟨hfind, hother, hactive⟩

end Accepted

/-! ## Loading -/

/-- What the loader takes for the value of an element with the default `d` that is not
required. -/
def valueOrDefault (data : Json) (key : String) (d : Json) : Json :=
  match data.get? key with
  | some v => if v == .null then d else v
  | none => d

/-- `rest` has no `key`, and is `data` in all else. -/
def Omits (key : String) (data rest : Json) : Prop :=
  rest.get? key = none ∧ ∀ k, k ≠ key → rest.get? k = data.get? k

/-- The element goes by the value its controller, with the default `d`, is loaded from, and a
null controller is one that is not there. -/
structure FollowsController (elements : List ElementSchema) (data : Json)
    (el controller : ElementSchema) (condition : Condition) (d : Json) : Prop where
  loaded : ∃ what, ∀ (α : Type) (fromConfigValue : Json → Except String α),
    loadElementIn fromConfigValue data controller elements =
      readConfigValue fromConfigValue what (valueOrDefault data controller.name d)
  active : el.conditionHolds data elements =
    condition.matchesActual (some (valueOrDefault data controller.name d))
  nullAsAbsent : data.get? controller.name = some .null → ∀ rest, Omits controller.name data rest →
    el.conditionHolds data elements = el.conditionHolds rest elements ∧
      ∀ (α : Type) (fromConfigValue : Json → Except String α),
        loadElementIn fromConfigValue data el elements =
          loadElementIn fromConfigValue rest el elements

section Loading
variable {elements : List ElementSchema} {el controller : ElementSchema} {condition : Condition}
  {d data rest : Json}

theorem loadElementIn_controller (hdefault : controller.default = some d)
    (hrequired : controller.isRequired = false) (hactive : controller.showIf = none) :
    ∃ what, ∀ (α : Type) (fromConfigValue : Json → Except String α),
      loadElementIn fromConfigValue data controller elements =
        readConfigValue fromConfigValue what (valueOrDefault data controller.name d) := by
  have hholds : controller.conditionHolds data elements = true := by
    rw [ElementSchema.conditionHolds, hactive]
  unfold loadElementIn valueOrDefault
  simp only [hholds, hrequired, hdefault, Bool.not_true, Bool.and_false, Bool.not_false,
    Bool.and_true, Option.getD_some]
  cases data.get? controller.name with
  | none => exact ⟨_, fun α fromConfigValue => rfl⟩
  | some v =>
    cases hnull : v == .null with
    | true => exact ⟨_, fun α fromConfigValue => by simp only [hnull]; rfl⟩
    | false => exact ⟨_, fun α fromConfigValue => by simp only [hnull]; rfl⟩

theorem conditionHolds_eq (hshow : el.showIf = some condition)
    (hfind : elements.find? (·.name == condition.element) = some controller)
    (hdefault : controller.default = some d) :
    el.conditionHolds data elements =
      condition.matchesActual (some ((data.get? condition.element).getD d)) := by
  unfold ElementSchema.conditionHolds
  simp only [hshow, hfind, Option.bind_some, hdefault]
  cases data.get? condition.element <;> rfl

/-- An element loads alike from configs that differ elsewhere. -/
theorem loadElementIn_congr (hget : data.get? el.name = rest.get? el.name)
    (hholds : el.conditionHolds data elements = el.conditionHolds rest elements) {α : Type}
    (fromConfigValue : Json → Except String α) :
    loadElementIn fromConfigValue data el elements =
      loadElementIn fromConfigValue rest el elements := by
  unfold loadElementIn
  simp only [hget, hholds]

/-- **Defaults of controllers.**  An element follows its controller unless the config has a null
there and the condition tells null from the default. -/
theorem followsController_iff {toString : Json → String} {o : ObjectSchema}
    (haccepted : buildObjectSchema (exportAll toString elements) = .ok o)
    (hnames : (elements.map (·.name)).Nodup) (hel : el ∈ elements)
    (hshow : el.showIf = some condition) (hcontroller : controller ∈ elements)
    (hname : controller.name = condition.element) (hdefault : controller.default = some d)
    (hrequired : controller.isRequired = false) :
    FollowsController elements data el controller condition d ↔
      (data.get? controller.name = some .null →
        condition.matchesActual (some .null) = condition.matchesActual (some d)) := by
  have hexported : (el, el.toJson toString) ∈ exportAll toString elements := by
    rw [exportAll_eq]
    exact List.mem_map_of_mem hel
  have hcontrolled := buildObjectSchema_controlled haccepted hexported
  rw [map_fst_exportAll] at hcontrolled
  obtain ⟨hfind, hother, hactive⟩ := hcontrolled.of_name hnames hcontroller hshow hname
  have hholds (data : Json) : el.conditionHolds data elements =
      condition.matchesActual (some ((data.get? controller.name).getD d)) := by
    rw [hname]
    exact conditionHolds_eq hshow hfind hdefault
  constructor
  · intro h hnull
    have hsame := (hholds data).symm.trans h.active
    rwa [valueOrDefault, hnull] at hsame
  · intro h
    refine ⟨loadElementIn_controller hdefault hrequired hactive, ?_, fun hnull rest hrest => ?_⟩
    · rw [hholds, valueOrDefault]
      cases hget : data.get? controller.name with
      | none => rfl
      | some v =>
        cases hv : v == .null with
        | true =>
          obtain rfl := beq_null_iff.mp hv
          exact h hget
        | false =>
          simp only [hv]
          rfl
    · have hsame : el.conditionHolds data elements = el.conditionHolds rest elements := by
        rw [hholds, hholds, hnull, hrest.1]
        exact h hnull
      exact ⟨hsame, fun α fromConfigValue =>
        loadElementIn_congr (hrest.2 el.name hother.symm).symm hsame fromConfigValue⟩

end Loading

/-! ### A depth asked for by a radar -/

namespace Radar

def modeElement : ElementSchema :=
  { ElementSchema.new "Mode" "mode" (.string ⟨none, none⟩) with default := some (.string "radar") }

def depthElement : ElementSchema :=
  { ElementSchema.number "Depth" "depth" with
    required := some true
    showIf := some (.equal "mode" (.string "radar")) }

def elements : List ElementSchema := [modeElement, depthElement]

def untouched : Json := Json.ofList [("mode", .null)]

/-- The mode is loaded as `radar`, and the depth that a radar must have is not missed. -/
theorem depth_not_missed :
    ¬ FollowsController elements untouched depthElement modeElement
        (.equal "mode" (.string "radar")) (.string "radar") ∧
      loadElementIn optionF64 untouched depthElement elements = .ok none ∧
      loadElementIn optionF64 (.object .empty) depthElement elements =
        .error (requiredMissing "depth") := by
  refine ⟨fun h => ?_, rfl, rfl⟩
  have hactive := h.active
  revert hactive
  decide

/-- A mode that is not null is followed. -/
theorem submersible_followed :
    FollowsController elements (Json.ofList [("mode", .string "submersible")]) depthElement
      modeElement (.equal "mode" (.string "radar")) (.string "radar") := by
  have haccepted : ∃ o, buildObjectSchema (exportAll (fun _ => "") elements) = .ok o := ⟨_, rfl⟩
  obtain ⟨o, ho⟩ := haccepted
  have hdepth : depthElement ∈ elements := List.mem_cons_of_mem _ (List.mem_singleton_self _)
  have hmode : modeElement ∈ elements := List.mem_cons_self ..
  exact (followsController_iff ho (by decide) hdepth rfl hmode rfl rfl rfl).mpr fun h => by cases h

end Radar
end Doover
