import Doover.UiCommands

/-! # The writes of a UI command

After `on_ui_command` the runner makes up to three writes: the value into the `ui_cmds`
aggregate, a log message, and a status on the command's message.  Each may be refused.
A refused value is logged and the success status is written all the same, so a command
can end as successful although its value was never written back
(`success_only_if_written_iff`).
-/

namespace Doover
open Json

/-- What the backend answers to the writes of a command. -/
structure CommandAnswers where
  aggregate : Except String Unit
  log : Except String Unit
  status : Except String Unit

/-- A write and its answer. -/
structure UiWrite where
  effect : UiEffect
  answer : Except String Unit

namespace UiRuntime
variable (ui : UiRuntime)

/-- `set_value` with its result: the log message is sent only after the aggregate was
taken. -/
def setValueWrites (name : String) (value : Json) (logUpdate : Bool) (answers : CommandAnswers) :
    List UiWrite × Except String Unit :=
  let aggregate : UiWrite :=
    ⟨.updateChannelAggregate UI_CMDS_CHANNEL
        (Json.ofList [(ui.appKey, Json.ofList [(name, value)])]), answers.aggregate⟩
  match answers.aggregate with
  | .error e => ([aggregate], .error e)
  | .ok () =>
    if logUpdate then
      ([aggregate, ⟨.createMessage UI_CMDS_CHANNEL
          (Json.ofList [("type", .string "log"), ("app_key", .string ui.appKey),
            ("key", .string name), ("value", value)]), answers.log⟩], answers.log)
    else ([aggregate], .ok ())

/-- A queued command: what the runner sends once the app's handler returned `result`.
A write that fails is logged, and the next one is made. -/
def handleUiCommand (cmd : UiCommand) (result : Except String Unit) (answers : CommandAnswers) :
    List UiWrite :=
  match result with
  | .ok () =>
    (ui.setValueWrites cmd.name cmd.value true answers).1 ++
      (respondSuccess cmd).map fun effect => ⟨effect, answers.status⟩
  | .error e =>
    (respondError cmd "INTERNAL_ERROR" e).map fun effect => ⟨effect, answers.status⟩

variable {ui} {cmd : UiCommand} {result : Except String Unit} {answers : CommandAnswers}

/-- The writes are those of `deliver`, which tells of the answers only whether the value
was stored. -/
theorem deliver_eq_handleUiCommand :
    ui.deliver cmd result answers.aggregate.isOk =
      .onUiCommand cmd :: (ui.handleUiCommand cmd result answers).map (·.effect) := by
  cases result with
  | error e =>
    rw [deliver, handleUiCommand, List.map_map]
    exact congrArg _ (List.map_id _).symm
  | ok u =>
    rw [deliver, handleUiCommand, List.map_append, List.map_map, setValue, setValueWrites]
    have hrespond : (respondSuccess cmd).map
        ((·.effect) ∘ fun effect => UiWrite.mk effect answers.status) = respondSuccess cmd :=
      List.map_id _
    rw [hrespond]
    cases answers.aggregate <;> rfl

/-- The status codes written to a message, in order. -/
def statusCodes (writes : List UiWrite) (id : ℕ) : List String :=
  writes.filterMap fun
    | ⟨.updateMessage _ id' data, .ok ()⟩ =>
      if id' = id then ((data.get? "status").bind (·.get? "code")).bind asStr else none
    | _ => none

/-- The value and its log message are both written. -/
def WroteBack (ui : UiRuntime) (cmd : UiCommand) (writes : List UiWrite) : Prop :=
  ⟨.updateChannelAggregate UI_CMDS_CHANNEL
      (Json.ofList [(ui.appKey, Json.ofList [(cmd.name, cmd.value)])]), .ok ()⟩ ∈ writes ∧
    ⟨.createMessage UI_CMDS_CHANNEL
      (Json.ofList [("type", .string "log"), ("app_key", .string ui.appKey),
        ("key", .string cmd.name), ("value", cmd.value)]), .ok ()⟩ ∈ writes

/-- A command is marked successful only when its value was written back, and ends as
successful only then. -/
def SuccessOnlyIfWritten (ui : UiRuntime) (cmd : UiCommand) (writes : List UiWrite) : Prop :=
  ∀ id, cmd.messageId = some id →
    ("success" ∈ statusCodes writes id → ui.WroteBack cmd writes) ∧
      (¬ ui.WroteBack cmd writes → (statusCodes writes id).getLast? ≠ some "success")

theorem statusCodes_append (as bs : List UiWrite) (id : ℕ) :
    statusCodes (as ++ bs) id = statusCodes as id ++ statusCodes bs id :=
  List.filterMap_append ..

/-- `set_value` writes no status. -/
theorem statusCodes_setValueWrites (id : ℕ) :
    statusCodes (ui.setValueWrites cmd.name cmd.value true answers).1 id = [] := by
  rw [setValueWrites]
  cases answers.aggregate <;> rfl

theorem statusCodes_respond {id : ℕ} (hid : cmd.messageId = some id) {status : Json}
    {code : String} (hcode : (status.get? "code").bind asStr = some code) :
    statusCodes ((respond cmd status).map fun effect => ⟨effect, answers.status⟩) id =
      if answers.status.isOk then [code] else [] := by
  rw [respond, hid]
  have hstatus : ((Json.ofList [("status", status), ("response", .object .empty)]).get?
      "status").bind (·.get? "code") = status.get? "code" := rfl
  cases answers.status with
  | error e => rfl
  | ok u =>
    simp only [statusCodes, List.map_cons, List.map_nil, List.filterMap_cons, if_true, hstatus,
      hcode, List.filterMap_nil]
    rfl

theorem statusCodes_handleUiCommand {id : ℕ} (hid : cmd.messageId = some id) :
    statusCodes (ui.handleUiCommand cmd result answers) id =
      if answers.status.isOk then [if result.isOk then "success" else "error"] else [] := by
  cases result with
  | error e => exact statusCodes_respond hid rfl
  | ok u =>
    rw [handleUiCommand, statusCodes_append, statusCodes_setValueWrites, List.nil_append]
    exact statusCodes_respond hid rfl

theorem length_statusCodes_handleUiCommand {id : ℕ} (hid : cmd.messageId = some id) :
    (statusCodes (ui.handleUiCommand cmd result answers) id).length ≤ 1 := by
  rw [statusCodes_handleUiCommand hid]
  split
  · exact le_refl 1
  · exact Nat.zero_le 1

theorem wroteBack_handleUiCommand_iff (hok : result = .ok ()) :
    ui.WroteBack cmd (ui.handleUiCommand cmd result answers) ↔
      answers.aggregate = .ok () ∧ answers.log = .ok () := by
  subst hok
  have hstatus : ∀ w ∈ (respondSuccess cmd).map fun effect => UiWrite.mk effect answers.status,
      ∃ id data, w.effect = .updateMessage UI_CMDS_CHANNEL id data := by
    intro w hw
    obtain ⟨effect, heffect, rfl⟩ := List.mem_map.mp hw
    rw [respondSuccess, respond] at heffect
    split at heffect
    · cases heffect
    · obtain rfl := List.mem_singleton.mp heffect
      exact ⟨_, _, rfl⟩
  -- a value or a log message is a write of `set_value`
  have hmem : ∀ w : UiWrite, (∀ id data, w.effect ≠ .updateMessage UI_CMDS_CHANNEL id data) →
      (w ∈ ui.handleUiCommand cmd (.ok ()) answers ↔
        w ∈ (ui.setValueWrites cmd.name cmd.value true answers).1) := by
    intro w hw
    rw [handleUiCommand, List.mem_append, or_iff_left]
    intro hmem
    obtain ⟨id, data, heffect⟩ := hstatus w hmem
    exact hw id data heffect
  rw [WroteBack, hmem _ (by simp), hmem _ (by simp), setValueWrites]
  cases haggregate : answers.aggregate with
  | error e => simp
  | ok u => cases hlog : answers.log <;> simp

/-- At most one status is written. -/
theorem successOnlyIfWritten_iff {id : ℕ} {writes : List UiWrite} (hid : cmd.messageId = some id)
    (hlength : (statusCodes writes id).length ≤ 1) :
    ui.SuccessOnlyIfWritten cmd writes ↔
      (statusCodes writes id = ["success"] → ui.WroteBack cmd writes) := by
  constructor
  · intro honly hcodes
    refine (honly id hid).1 ?_
    rw [hcodes]
    exact List.mem_singleton_self _
  · intro hwrote id' hid'
    obtain rfl := Option.some.inj (hid.symm.trans hid')
    have hsuccess : ∀ code ∈ statusCodes writes id, statusCodes writes id = [code] := by
      intro code hcode
      obtain ⟨code', hcode'⟩ := List.length_eq_one_iff.mp
        (le_antisymm hlength (List.length_pos_of_mem hcode))
      rw [hcode'] at hcode ⊢
      rw [List.mem_singleton.mp hcode]
    constructor
    · exact fun hmem => hwrote (hsuccess _ hmem)
    · exact fun hnot hlast => hnot (hwrote (hsuccess _ (List.mem_of_getLast? hlast)))

/-- **When a command's success can be believed.**  A command is marked successful only if
its value was written back, exactly when it cannot be marked, failed, or both writes of
the value are taken. -/
theorem success_only_if_written_iff (ui : UiRuntime) (cmd : UiCommand)
    (result : Except String Unit) (answers : CommandAnswers) :
    ui.SuccessOnlyIfWritten cmd (ui.handleUiCommand cmd result answers) ↔
      cmd.messageId = none ∨ result ≠ .ok () ∨ answers.status ≠ .ok () ∨
        answers.aggregate = .ok () ∧ answers.log = .ok () := by
  cases hid : cmd.messageId with
  | none =>
    refine iff_of_true (fun id h => ?_) (.inl rfl)
    rw [hid] at h
    cases h
  | some id =>
    have hcodes : statusCodes (ui.handleUiCommand cmd result answers) id = _ :=
      statusCodes_handleUiCommand hid
    have honly : ui.SuccessOnlyIfWritten cmd (ui.handleUiCommand cmd result answers) ↔
        (statusCodes (ui.handleUiCommand cmd result answers) id = ["success"] →
          ui.WroteBack cmd (ui.handleUiCommand cmd result answers)) :=
      successOnlyIfWritten_iff hid (length_statusCodes_handleUiCommand hid)
    rw [honly, hcodes, or_iff_right (Option.some_ne_none id)]
    cases hstatus : answers.status with
    | error e => simp [Except.isOk, Except.toBool]
    | ok u =>
      cases hresult : result with
      | error e => simp [Except.isOk, Except.toBool]
      | ok u => simp [Except.isOk, Except.toBool, wroteBack_handleUiCommand_iff]

/-- A command to open a valve, whose value the agent refuses: it ends as successful. -/
theorem refused_value_marked_successful :
    let ui : UiRuntime := ⟨"valve_app", .object .empty, ["valve"]⟩
    let cmd : UiCommand := ⟨"valve", .bool true, some 42⟩
    let writes := ui.handleUiCommand cmd (.ok ()) ⟨.error "unavailable", .ok (), .ok ()⟩
    statusCodes writes 42 = ["success"] ∧
      writes.map (·.answer) = [.error "unavailable", .ok ()] ∧
      ¬ ui.SuccessOnlyIfWritten cmd writes := by
  intro ui cmd writes
  refine ⟨rfl, rfl, fun honly => ?_⟩
  have hwrote := (wroteBack_handleUiCommand_iff rfl).mp
    ((honly 42 rfl).1 (List.mem_singleton_self "success"))
  cases hwrote.1

end UiRuntime
end Doover
