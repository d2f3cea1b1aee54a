import Doover.Merge
import Doover.StepRuns

/-! # Publishing the UI schema

`publishSchema` writes the app's schema into the agent's `ui_state`: it clears the app's
subtree, then sets it.  The text of the schema published last is kept, and a call with the
same text writes nothing.  When the clearing succeeds and the setting fails, the agent has
no schema for the app, but the text of the one before is kept all the same: publishing
that one again is answered as unchanged (`published_schema_held_iff`).
-/

namespace Doover
open Json StepRuns

/-- What the agent answers to the two writes of a publish. -/
structure PublishAnswers where
  clear : Except String Unit
  set : Except String Unit

/-- The runtime's memory of what it published, and the agent's `ui_state`. -/
structure UiPublisher where
  lastPublished : Option String
  uiState : Json

/-- What happens to `ui_state`. -/
inductive UiStateAct where
  /-- The app publishes a schema. -/
  | publish (schema : IndexMap String Json) (answers : PublishAnswers)
  /-- Somebody else writes. -/
  | others (diff : Json)

namespace UiPublisher

/-- The app's subtree in a `ui_state` aggregate. -/
def childPath (appKey : String) : List String := ["state", "children", appKey]

def wrap (appKey : String) (inner : Json) : Json :=
  .ofList [("state", .ofList [("children", .ofList [(appKey, inner)])])]

variable (serialize : Json → String) (appKey : String) (w : UiPublisher)

/-- The schema that the agent has for the app. -/
def agentSchema : Option Json := w.uiState.lookup (childPath appKey)

/-- Whether a publish happened, or the error of the write that failed. -/
def publishSchema (schema : Json) (answers : PublishAnswers) : UiPublisher × Except String Bool :=
  if w.lastPublished = some (serialize schema) then (w, .ok false)
  else
    match answers.clear with
    | .error e => (w, .error e)
    | .ok () =>
      let w := { w with uiState := merge w.uiState (wrap appKey .null) }
      match answers.set with
      | .error e => (w, .error e)
      | .ok () =>
        (⟨some (serialize schema), merge w.uiState (wrap appKey schema)⟩, .ok true)

variable {serialize appKey w} {schema : Json} {answers : PublishAnswers}

theorem wrap_eq_construct (inner : Json) :
    wrap appKey inner = KeyPath.construct ⟨childPath appKey⟩ inner := rfl

/-! ## What a call does -/

theorem publishSchema_unchanged (h : w.lastPublished = some (serialize schema)) :
    w.publishSchema serialize appKey schema answers = (w, .ok false) := if_pos h

theorem publishSchema_clear_refused {e : String} (h : w.lastPublished ≠ some (serialize schema))
    (hclear : answers.clear = .error e) :
    w.publishSchema serialize appKey schema answers = (w, .error e) := by
  rw [publishSchema, if_neg h, hclear]

theorem publishSchema_set_refused {e : String} (h : w.lastPublished ≠ some (serialize schema))
    (hclear : answers.clear = .ok ()) (hset : answers.set = .error e) :
    w.publishSchema serialize appKey schema answers =
      (⟨w.lastPublished, merge w.uiState (wrap appKey .null)⟩, .error e) := by
  rw [publishSchema, if_neg h, hclear]
  simp only [hset]

theorem publishSchema_accepted (h : w.lastPublished ≠ some (serialize schema))
    (hclear : answers.clear = .ok ()) (hset : answers.set = .ok ()) :
    w.publishSchema serialize appKey schema answers =
      (⟨some (serialize schema),
        merge (merge w.uiState (wrap appKey .null)) (wrap appKey schema)⟩, .ok true) := by
  rw [publishSchema, if_neg h, hclear]
  simp only [hset]

theorem agentSchema_cleared (uiState : Json) :
    (merge uiState (wrap appKey .null)).lookup (childPath appKey) = some .null := by
  rw [wrap_eq_construct]
  exact lookup_merge_construct (.inl rfl)

/-- After the clearing the schema is not merged into anything. -/
theorem agentSchema_set (uiState : Json) :
    (merge (merge uiState (wrap appKey .null)) (wrap appKey schema)).lookup (childPath appKey) =
      some schema := by
  rw [wrap_eq_construct schema]
  refine lookup_merge_construct (.inr fun c hc => ?_)
  rw [agentSchema_cleared, Option.some.injEq] at hc
  rw [← hc]
  rfl

end UiPublisher

/-! ## Runs -/

/-- A publisher with what it has published: the schema of the last call that published, and
whether a call since then cleared the agent's and failed to set it. -/
structure UiRun where
  publisher : UiPublisher
  published : Option (IndexMap String Json)
  halfWritten : Bool

namespace UiRun
open UiPublisher
variable (serialize : Json → String) (appKey : String)

/-- A fresh runtime, with whatever the agent has. -/
def new (uiState : Json) : UiRun := ⟨⟨none, uiState⟩, none, false⟩

def step (r : UiRun) : UiStateAct → UiRun
  | .others diff =>
    { r with publisher := { r.publisher with uiState := merge r.publisher.uiState diff } }
  | .publish schema answers =>
    let call := r.publisher.publishSchema serialize appKey (.object schema) answers
    match call.2 with
    | .ok true => ⟨call.1, some schema, false⟩
    | .ok false => { r with publisher := call.1 }
    | .error _ =>
      { r with
        publisher := call.1
        halfWritten := r.halfWritten || answers.clear.isOk }

/-- An answer that is no error is given only when the agent has the schema. -/
def AnswersTruly (r : UiRun) : UiStateAct → Prop
  | .others _ => True
  | .publish schema answers =>
    ∀ changed, (r.publisher.publishSchema serialize appKey (.object schema) answers).2 = .ok changed →
      (r.step serialize appKey (.publish schema answers)).publisher.agentSchema appKey =
        some (.object schema)

/-- The call repeats what was published last, over a half-written publish. -/
def RepeatsOverHalfWrite (r : UiRun) : UiStateAct → Prop
  | .others _ => False
  | .publish schema _ => r.halfWritten = true ∧ r.published = some schema

/-- The runtime remembers the text of what it published, and the agent has that schema or,
after a half-written publish, none.  `schemas` are those that are ever published. -/
structure Remembers (schemas : IndexMap String Json → Prop) (r : UiRun) : Prop where
  last : r.publisher.lastPublished = r.published.map fun schema => serialize (.object schema)
  mem : ∀ schema, r.published = some schema → schemas schema
  held : ∀ schema, r.published = some schema →
    r.publisher.agentSchema appKey = some (if r.halfWritten then .null else .object schema)

variable {serialize appKey} {schemas : IndexMap String Json → Prop} {r : UiRun}
  {schema : IndexMap String Json} {answers : PublishAnswers}

theorem remembers_new (uiState : Json) : Remembers serialize appKey schemas (.new uiState) := by
  refine ⟨rfl, fun s hs => ?_, fun s hs => ?_⟩
  · cases hs
  · cases hs

/-- The texts of two schemas are equal only when the schemas are. -/
def TextsDiffer (serialize : Json → String) (schemas : IndexMap String Json → Prop) : Prop :=
  ∀ s s', schemas s → schemas s' → serialize (.object s) = serialize (.object s') → s = s'

/-- A call is taken for unchanged exactly when it repeats what was published last. -/
theorem Remembers.lastPublished_iff (hr : Remembers serialize appKey schemas r)
    (htexts : TextsDiffer serialize schemas) (hschema : schemas schema) :
    r.publisher.lastPublished = some (serialize (.object schema)) ↔ r.published = some schema := by
  rw [hr.last]
  cases hpublished : r.published with
  | none => simp
  | some s =>
    rw [Option.map_some, Option.some.injEq, Option.some.injEq]
    constructor
    · exact htexts s schema (hr.mem s hpublished) hschema
    · exact fun h => by rw [h]

/-- **One call.**  Its answer is true unless it repeats what was published last over a
half-written publish. -/
theorem Remembers.answersTruly_iff (hr : Remembers serialize appKey schemas r)
    (htexts : TextsDiffer serialize schemas) (hschema : schemas schema) :
    AnswersTruly serialize appKey r (.publish schema answers) ↔
      ¬ r.RepeatsOverHalfWrite (.publish schema answers) := by
  have hlast := hr.lastPublished_iff htexts hschema
  rw [AnswersTruly, RepeatsOverHalfWrite, step]
  by_cases hsame : r.published = some schema
  · rw [publishSchema_unchanged (hlast.mpr hsame), and_iff_left hsame]
    simp only [Except.ok.injEq, forall_eq']
    rw [hr.held schema hsame]
    cases r.halfWritten with
    | true => simp
    | false => simp
  · have hnew := fun h => hsame (hlast.mp h)
    refine iff_of_true ?_ fun h => hsame h.2
    cases hclear : answers.clear with
    | error e =>
      rw [publishSchema_clear_refused hnew hclear]
      simp
    | ok u =>
      cases hset : answers.set with
      | error e =>
        rw [publishSchema_set_refused hnew hclear hset]
        simp
      | ok u =>
        rw [publishSchema_accepted hnew hclear hset]
        exact fun _ _ => agentSchema_set _

theorem Remembers.publish (hr : Remembers serialize appKey schemas r)
    (htexts : TextsDiffer serialize schemas) (hschema : schemas schema) :
    Remembers serialize appKey schemas (r.step serialize appKey (.publish schema answers)) := by
  have hlast := hr.lastPublished_iff htexts hschema
  rw [step]
  by_cases hsame : r.published = some schema
  · rw [publishSchema_unchanged (hlast.mpr hsame)]
    exact hr
  · have hnew := fun h => hsame (hlast.mp h)
    cases hclear : answers.clear with
    | error e =>
      rw [publishSchema_clear_refused hnew hclear]
      refine ⟨hr.last, hr.mem, fun s hs => ?_⟩
      show r.publisher.agentSchema appKey = some (if (r.halfWritten || _) then _ else _)
      have hrefused : (Except.error e : Except String Unit).isOk = false := rfl
      rw [hr.held s hs, hrefused, Bool.or_false]
    | ok u =>
      cases hset : answers.set with
      | error e =>
        rw [publishSchema_set_refused hnew hclear hset]
        refine ⟨hr.last, hr.mem, fun s hs => ?_⟩
        have hcleared : (Except.ok u : Except String Unit).isOk = true := rfl
        simp only [hcleared, Bool.or_true, if_true]
        exact agentSchema_cleared r.publisher.uiState
      | ok u =>
        rw [publishSchema_accepted hnew hclear hset]
        refine ⟨rfl, fun s hs => ?_, fun s hs => ?_⟩
        · exact Option.some.inj hs ▸ hschema
        · obtain rfl := Option.some.inj hs
          exact agentSchema_set r.publisher.uiState

theorem Remembers.others (hr : Remembers serialize appKey schemas r) {diff : Json}
    (hdiff : diff.Misses (childPath appKey)) :
    Remembers serialize appKey schemas (r.step serialize appKey (.others diff)) :=
  ⟨hr.last, hr.mem, fun s hs => (lookup_merge_of_misses hdiff _).trans (hr.held s hs)⟩

/-- **When a published schema is the agent's.**  In every run in which nobody else writes
the app's subtree, each call that is answered without an error leaves the agent with the
schema passed, exactly when no call repeats what was published last over a half-written
publish. -/
theorem published_schema_held_iff (serialize : Json → String) (appKey : String)
    (uiState : Json) (acts : List UiStateAct)
    (htexts : TextsDiffer serialize fun schema => ∃ answers, .publish schema answers ∈ acts)
    (hothers : ∀ diff, .others diff ∈ acts → diff.Misses (childPath appKey)) :
    (∀ pre a, pre ++ [a] <+: acts →
        AnswersTruly serialize appKey (exec (step serialize appKey) (.new uiState) pre) a) ↔
      ∀ pre a, pre ++ [a] <+: acts →
        ¬ (exec (step serialize appKey) (.new uiState) pre).RepeatsOverHalfWrite a := by
  have hremembers : ∀ pre, pre <+: acts →
      Remembers serialize appKey (fun schema => ∃ answers, .publish schema answers ∈ acts)
        (exec (step serialize appKey) (.new uiState) pre) := by
    refine prefix_induction (remembers_new uiState) fun pre a hpre ih => ?_
    have ha : a ∈ acts := hpre.subset (by simp)
    rw [exec_concat]
    cases a with
    | publish schema answers => exact ih.publish htexts ⟨answers, ha⟩
    | others diff => exact ih.others (hothers diff ha)
  refine forall_congr' fun pre => forall_congr' fun a => forall_congr' fun hpre => ?_
  have hr := hremembers pre ((List.prefix_append ..).trans hpre)
  have ha : a ∈ acts := hpre.subset (by simp)
  cases a with
  | publish schema answers => exact hr.answersTruly_iff htexts ⟨answers, ha⟩
  | others diff => exact iff_of_true trivial id

/-! ## A schema lost to a refused write -/

/-- A text for the two schemas below. -/
def titleText (schema : Json) : String := ((schema.get? "title").bind asStr).getD ""

def titled (title : String) : IndexMap String Json := IndexMap.ofList [("title", .string title)]

def accepted : PublishAnswers := ⟨.ok (), .ok ()⟩

def setRefused : PublishAnswers := ⟨.ok (), .error "unavailable"⟩

/-- The pump schema is published, the valve schema is half-written, and the pump schema is
published again. -/
def pumpAgain : List UiStateAct :=
  [.publish (titled "pump") accepted, .publish (titled "valve") setRefused,
    .publish (titled "pump") accepted]

/-- The equivalence for these calls. -/
theorem published_schema_held_iff_pump :
    (∀ pre a, pre ++ [a] <+: pumpAgain →
        AnswersTruly titleText "app" (exec (step titleText "app") (.new .null) pre) a) ↔
      ∀ pre a, pre ++ [a] <+: pumpAgain →
        ¬ (exec (step titleText "app") (.new .null) pre).RepeatsOverHalfWrite a :=
  published_schema_held_iff titleText "app" .null pumpAgain
    (by
      have htitle : ∀ s, (∃ answers, .publish s answers ∈ pumpAgain) →
          s = titled "pump" ∨ s = titled "valve" := by
        rintro s ⟨answers, hs⟩
        simp only [pumpAgain, List.mem_cons, UiStateAct.publish.injEq, List.not_mem_nil,
          or_false] at hs
        rcases hs with ⟨rfl, -⟩ | ⟨rfl, -⟩ | ⟨rfl, -⟩
        · exact .inl rfl
        · exact .inr rfl
        · exact .inl rfl
      intro s s' hs hs' htext
      rcases htitle s hs with rfl | rfl <;> rcases htitle s' hs' with rfl | rfl
      · rfl
      · exact absurd htext (by decide)
      · exact absurd htext (by decide)
      · rfl)
    (by simp [pumpAgain])

/-- The last call is answered as unchanged, and the agent has no schema for the app. -/
theorem unchanged_answer_without_schema :
    let r := exec (step titleText "app") (.new .null)
      [.publish (titled "pump") accepted, .publish (titled "valve") setRefused]
    (r.publisher.publishSchema titleText "app" (.object (titled "pump")) accepted).2 = .ok false ∧
      (r.step titleText "app" (.publish (titled "pump") accepted)).publisher.agentSchema "app" =
        some .null ∧
      ¬ AnswersTruly titleText "app" r (.publish (titled "pump") accepted) := by
  intro r
  have hunchanged : (r.publisher.publishSchema titleText "app" (.object (titled "pump"))
      accepted).2 = .ok false := rfl
  have hnone : (r.step titleText "app" (.publish (titled "pump")
      accepted)).publisher.agentSchema "app" = some .null := rfl
  refine ⟨hunchanged, hnone, fun htruly => ?_⟩
  cases hnone.symm.trans (htruly false hunchanged)

end UiRun
end Doover
