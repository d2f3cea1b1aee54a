import Doover.StepRuns
import Doover.UiCommands

/-! # The tree of UI elements and the commands it offers

An app's UI is a tree of elements, some of them interactions.  The runner reads two things
off it: the schema it publishes, after the setup and after every loop iteration, and the
names of the interactions, which the UI runtime takes commands for (`setInteractions`).
The names are read before and after the setup only.  The app may change its tree at any
time, so the published tree offers the commands that are taken exactly while its
interactions are those it had after the setup (`offers_what_is_published_iff`).

Where an element stands and what it serializes to decide no name, and are left out.
-/

namespace Doover
open Json StepRuns

/-- An element with the elements nested in it. -/
inductive UiElement where
  | mk (name : String) (isInteraction : Bool) (nestedChildren : List UiElement)

namespace UiElement

def name : UiElement → String
  | .mk name _ _ => name

mutual
/-- The names of the interactions of an element and of those below it. -/
def collect : UiElement → List String
  | .mk name isInteraction nestedChildren =>
    (if isInteraction then [name] else []) ++ collectAll nestedChildren
def collectAll : List UiElement → List String
  | [] => []
  | child :: children => collect child ++ collectAll children
end

mutual
/-- Remove the children of that name, at every depth. -/
def removeNestedChild (removed : String) : UiElement → UiElement
  | .mk name isInteraction nestedChildren =>
    .mk name isInteraction (removeChildren removed nestedChildren)
def removeChildren (removed : String) : List UiElement → List UiElement
  | [] => []
  | child :: children =>
    if child.name = removed then removeChildren removed children
    else removeNestedChild removed child :: removeChildren removed children
end

def addChildren (added : List UiElement) : UiElement → UiElement
  | .mk name isInteraction nestedChildren => .mk name isInteraction (nestedChildren ++ added)

def clearChildren : UiElement → UiElement
  | .mk name isInteraction _ => .mk name isInteraction []

/-- Change the element that the positions lead to. -/
def modifyAt (f : UiElement → UiElement) : List ℕ → UiElement → UiElement
  | [], element => f element
  | i :: path, .mk name isInteraction nestedChildren =>
    .mk name isInteraction (nestedChildren.modify i (modifyAt f path))

end UiElement

/-- The elements of an app, in declaration order. -/
structure UiTree where
  children : List UiElement

/-- A change of a container, by where it is. -/
inductive UiMutation where
  | addChildren (root : ℕ) (path : List ℕ) (children : List UiElement)
  | removeChild (root : ℕ) (path : List ℕ) (name : String)
  | clearChildren (root : ℕ) (path : List ℕ)

namespace UiTree

def interactionNames (ui : UiTree) : List String := UiElement.collectAll ui.children

def mutate (ui : UiTree) : UiMutation → UiTree
  | .addChildren root path children =>
    ⟨ui.children.modify root (UiElement.modifyAt (UiElement.addChildren children) path)⟩
  | .removeChild root path name =>
    ⟨ui.children.modify root (UiElement.modifyAt (UiElement.removeNestedChild name) path)⟩
  | .clearChildren root path =>
    ⟨ui.children.modify root (UiElement.modifyAt UiElement.clearChildren path)⟩

end UiTree

def UiRuntime.setInteractions (ui : UiRuntime) (names : List String) : UiRuntime :=
  { ui with interactions := names }

/-! ## The run loop -/

/-- The runner: the UI runtime, the app's tree, and the tree whose schema was published
last. -/
structure UiLoop where
  runtime : UiRuntime
  ui : Option UiTree
  published : Option UiTree

/-- What the run loop does after the setup.  What the app's code does to its tree is a
function of it. -/
inductive UiLoopAct where
  /-- An iteration whose `main_loop` and commit succeed. -/
  | tick (mainLoop : UiTree → UiTree)
  /-- A runner event is handled. -/
  | callback (handler : UiTree → UiTree)
  /-- An event on `ui_cmds` arrives. -/
  | uiCmds (ev : Event)

namespace UiLoop
variable (l : UiLoop)

def interactionNames : List String := (l.ui.map UiTree.interactionNames).getD []

/-- A publish that succeeds; a UI without elements publishes nothing. -/
def publishUi : UiLoop :=
  match l.ui with
  | none => l
  | some ui => if ui.children.isEmpty then l else { l with published := some ui }

def setInteractions : UiLoop :=
  { l with runtime := l.runtime.setInteractions l.interactionNames }

/-- `run_with` up to its loop: the app is created, set up, and published. -/
def boot (appKey : String) (ui : Option UiTree) (setup : UiTree → UiTree) : UiLoop :=
  let created : UiLoop := ⟨⟨appKey, .object .empty, []⟩, ui, none⟩
  let started := created.setInteractions
  { started with ui := started.ui.map setup }.setInteractions.publishUi

def step : UiLoopAct → UiLoop
  | .tick mainLoop => { l with ui := l.ui.map mainLoop }.publishUi
  | .callback handler => { l with ui := l.ui.map handler }
  | .uiCmds ev => { l with runtime := (l.runtime.handleEvent ev).1 }

/-- A command is a message on `ui_cmds` that is addressed to the app, has a request, and
may be acted upon. -/
structure IsCommand (appKey : String) (now : ℤ) (ev : Event) (data : Json) (method : String) :
    Prop where
  channel : ev.channel = UI_CMDS_CHANNEL
  message : ev.isMessageCreate = true ∨ ev.isOneShot = true
  hasData : ev.messageData = some data
  rpc : (data.get? "type").bind asStr = some "rpc"
  hasMethod : (data.get? "method").bind asStr = some method
  app : ∀ target, (data.get? "app_key").bind asStr = some target → target = appKey
  request : (data.get? "request").isSome = true
  free : ¬ Guarded now ev data

/-- The commands taken are those that the published tree offers. -/
def OffersWhatIsPublished : Prop :=
  ∀ ui, l.published = some ui → ∀ now ev data method,
    IsCommand l.runtime.appKey now ev data method →
      ((l.runtime.handleEvent ev).2.isSome = true ↔ method ∈ ui.interactionNames)

variable {l}

/-! ## Which commands are taken -/

/-- A command is taken when its method is an interaction. -/
theorem handleEvent_isSome_iff_of_isCommand {now : ℤ} {ev : Event} {data : Json}
    {method : String} (h : IsCommand l.runtime.appKey now ev data method) :
    (l.runtime.handleEvent ev).2.isSome = true ↔ method ∈ l.runtime.interactions := by
  rw [UiRuntime.handleEvent_isSome_iff]
  constructor
  · rintro ⟨data', hdata', haddressed⟩
    obtain rfl := Option.some.inj (h.hasData.symm.trans hdata')
    obtain ⟨name, hname, hmethod⟩ := haddressed.method
    obtain rfl := Option.some.inj (h.hasMethod.symm.trans hmethod)
    exact hname
  · intro hmethod
    exact ⟨data, h.hasData, h.message, h.rpc, ⟨method, hmethod, h.hasMethod⟩, h.app, h.request⟩

/-- A command for a name. -/
def commandFor (name : String) : Event :=
  ⟨Event.MESSAGE_CREATE, UI_CMDS_CHANNEL,
    .ofList [("data",
      .ofList [("type", .string "rpc"), ("method", .string name), ("request", .null)])]⟩

theorem isCommand_commandFor (appKey name : String) :
    IsCommand appKey 0 (commandFor name)
      (.ofList [("type", .string "rpc"), ("method", .string name), ("request", .null)]) name where
  channel := rfl
  message := .inl rfl
  hasData := rfl
  rpc := rfl
  hasMethod := rfl
  app := by
    intro target htarget
    cases htarget
  request := rfl
  free := by
    rintro (⟨id, hid, -⟩ | hcancelled)
    · cases hid
    · cases hcancelled

/-- The commands are offered exactly when the two sets of names are the same. -/
theorem offersWhatIsPublished_iff :
    l.OffersWhatIsPublished ↔
      ∀ ui, l.published = some ui → ∀ name,
        name ∈ l.runtime.interactions ↔ name ∈ ui.interactionNames := by
  refine forall_congr' fun ui => forall_congr' fun _ => ?_
  constructor
  · intro h name
    have hcommand := isCommand_commandFor l.runtime.appKey name
    rw [← h _ _ _ _ hcommand, handleEvent_isSome_iff_of_isCommand hcommand]
  · intro h now ev data method hcommand
    rw [handleEvent_isSome_iff_of_isCommand hcommand, h method]

/-! ## Runs -/

theorem handleEvent_interactions (ui : UiRuntime) (ev : Event) :
    (ui.handleEvent ev).1.interactions = ui.interactions := by
  rw [UiRuntime.handleEvent]
  split
  · rfl
  · split <;> rfl

theorem publishUi_runtime : l.publishUi.runtime = l.runtime := by
  rw [publishUi]
  split
  · rfl
  · split <;> rfl

/-- The names are never read again. -/
theorem step_interactions (a : UiLoopAct) :
    (l.step a).runtime.interactions = l.runtime.interactions := by
  cases a with
  | tick mainLoop =>
    rw [step, publishUi_runtime]
  | callback handler => rfl
  | uiCmds ev => exact handleEvent_interactions l.runtime ev

theorem exec_interactions (l : UiLoop) (acts : List UiLoopAct) :
    (exec step l acts).runtime.interactions = l.runtime.interactions :=
  exec_invariant step (I := fun l' => l'.runtime.interactions = l.runtime.interactions) rfl
    fun _ hl' a _ => (step_interactions a).trans hl'

/-- An iteration publishes a tree, when it publishes one, whose interactions have the names
that were read. -/
def KeepsNames (names : List String) (l : UiLoop) : UiLoopAct → Prop
  | .tick mainLoop =>
    ∀ ui, l.ui = some ui → (mainLoop ui).children ≠ [] →
      ∀ name, name ∈ names ↔ name ∈ (mainLoop ui).interactionNames
  | _ => True

/-- **One step.**  The published tree goes on offering what is taken exactly when the step
keeps the names. -/
theorem offersWhatIsPublished_step (a : UiLoopAct) (h : l.OffersWhatIsPublished) :
    (l.step a).OffersWhatIsPublished ↔ KeepsNames l.runtime.interactions l a := by
  rw [offersWhatIsPublished_iff] at h ⊢
  rw [step_interactions]
  cases a with
  | tick mainLoop =>
    rw [KeepsNames, step, publishUi]
    cases hui : l.ui with
    | none => exact iff_of_true h (by simp)
    | some ui =>
      simp only [Option.map_some, Option.some.injEq, forall_eq']
      by_cases hempty : (mainLoop ui).children = []
      · rw [if_pos (List.isEmpty_iff.mpr hempty)]
        exact iff_of_true h fun hne => absurd hempty hne
      · rw [if_neg fun h => hempty (List.isEmpty_iff.mp h), forall_prop_of_true hempty]
        simp only [Option.some.injEq, forall_eq']
  | callback handler => exact iff_of_true h trivial
  | uiCmds ev => exact iff_of_true h trivial

/-- The published tree offers what is taken when the loop is entered. -/
theorem offersWhatIsPublished_boot (appKey : String) (ui : Option UiTree)
    (setup : UiTree → UiTree) : (boot appKey ui setup).OffersWhatIsPublished := by
  rw [offersWhatIsPublished_iff, boot, publishUi_runtime]
  cases ui with
  | none =>
    intro ui hui
    cases hui
  | some ui =>
    intro published hpublished
    rw [publishUi] at hpublished
    simp only [setInteractions, Option.map_some] at hpublished
    split at hpublished
    · cases hpublished
    · cases hpublished
      exact fun name => Iff.rfl

/-- **When an app takes the commands that its UI offers.**  From the first publish on, a
command is taken exactly when its method is an interaction of the tree published last, if
and only if every iteration that publishes leaves the interactions with the names they had
after the setup. -/
theorem offers_what_is_published_iff (appKey : String) (ui : Option UiTree)
    (setup : UiTree → UiTree) (acts : List UiLoopAct) :
    (∀ pre, pre <+: acts → (exec step (boot appKey ui setup) pre).OffersWhatIsPublished) ↔
      ∀ pre a, pre ++ [a] <+: acts →
        KeepsNames (((ui.map setup).map UiTree.interactionNames).getD [])
          (exec step (boot appKey ui setup) pre) a := by
  have hnames : (boot appKey ui setup).runtime.interactions =
      ((ui.map setup).map UiTree.interactionNames).getD [] := by
    rw [boot, publishUi_runtime]
    rfl
  refine forall_prefix_iff (offersWhatIsPublished_boot appKey ui setup) fun pre a _ h => ?_
  rw [exec_concat, offersWhatIsPublished_step a h, exec_interactions, hnames]

/-- A panel with a button. -/
def panel : UiTree := ⟨[.mk "panel" false [.mk "start" true []]]⟩

/-- An iteration that replaces the button of the panel by another. -/
def replaceButton (ui : UiTree) : UiTree :=
  (ui.mutate (.removeChild 0 [] "start")).mutate (.addChildren 0 [] [.mk "stop" true []])

/-- The button that was taken away still works, and the one that is shown does not. -/
theorem replaced_button_ignored :
    let l := exec step (boot "app" (some panel) id) [.tick replaceButton]
    l.published = some ⟨[.mk "panel" false [.mk "stop" true []]]⟩ ∧
      (l.runtime.handleEvent (commandFor "stop")).2 = none ∧
      (l.runtime.handleEvent (commandFor "start")).2 = some ⟨"start", .null, none⟩ ∧
      ¬ l.OffersWhatIsPublished := by
  intro l
  have hnone : (l.runtime.handleEvent (commandFor "stop")).2 = none := rfl
  refine ⟨rfl, hnone, rfl, fun hoffers => ?_⟩
  have htaken := (hoffers _ rfl _ _ _ _ (isCommand_commandFor "app" "stop")).mpr
    (List.mem_singleton_self "stop")
  rw [hnone] at htaken
  cases htaken

end UiLoop
end Doover
