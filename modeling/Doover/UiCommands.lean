import Doover.RpcCommands

/-! # UI commands

The UI runtime takes commands for the app's interactions off the same channel
messages as `RpcManager`, by a filter of its own (`handleEvent`).  Both demand that
the message is addressed to an interaction of this app (`Addressed`); the manager
also drops it when it is expired or withdrawn (`Guarded`), the UI runtime does not.
So the two agree on a message exactly when it is not both
(`dropsLikeManager_iff`), and a command the manager drops is otherwise run, written
back and answered with a success (`deliver`).
-/

namespace Doover
open Json

/-- The channel UI commands arrive on. -/
def UI_CMDS_CHANNEL : String := "ui_cmds"

/-- A user command for one of the app's interactions. -/
structure UiCommand where
  name : String
  value : Json
  /-- `none` for a one-shot. -/
  messageId : Option ℕ

structure UiRuntime where
  appKey : String
  /-- This app's part of the `ui_cmds` aggregate. -/
  values : Json
  /-- The names commands may target. -/
  interactions : List String

/-- What the runner does with a command, one call each. -/
inductive UiEffect where
  | onUiCommand (cmd : UiCommand)
  | updateChannelAggregate (channel : String) (data : Json)
  | createMessage (channel : String) (data : Json)
  | updateMessage (channel : String) (id : ℕ) (data : Json)

namespace UiRuntime
variable (ui : UiRuntime)

/-- An aggregate event refreshes the values; a message event may be a command. -/
def handleEvent (ev : Event) : UiRuntime × Option UiCommand :=
  if ev.isAggregateUpdate || ev.isChannelSync then
    ({ ui with values := (ev.aggregateData.bind fun d => d.get? ui.appKey).getD (.object .empty) },
      none)
  else if !(ev.isMessageCreate || ev.isOneShot) then (ui, none)
  else
    (ui, do
      let data ← ev.messageData
      guard ((data.get? "type").bind asStr = some "rpc")
      let method ← (data.get? "method").bind asStr
      guard (((data.get? "app_key").bind asStr).all fun target => target = ui.appKey)
      guard (ui.interactions.contains method)
      let value ← data.get? "request"
      some ⟨method, value, if ev.isOneShot then none else ev.messageId⟩)

/-! ## What the runner does with a command -/

/-- `set_value`: the value into the aggregate, then a log message.  `stored` says
whether the first write succeeds. -/
def setValue (name : String) (value : Json) (stored : Bool) : List UiEffect :=
  .updateChannelAggregate UI_CMDS_CHANNEL
      (Json.ofList [(ui.appKey, Json.ofList [(name, value)])]) ::
    if stored then
      [.createMessage UI_CMDS_CHANNEL
        (Json.ofList [("type", .string "log"), ("app_key", .string ui.appKey),
          ("key", .string name), ("value", value)])]
    else []

/-- The request message's terminal status, unless the command was a one-shot. -/
def respond (cmd : UiCommand) (status : Json) : List UiEffect :=
  match cmd.messageId with
  | none => []
  | some id =>
    [.updateMessage UI_CMDS_CHANNEL id
      (Json.ofList [("status", status), ("response", .object .empty)])]

def respondSuccess (cmd : UiCommand) : List UiEffect :=
  respond cmd (Json.ofList [("code", .string "success"), ("message", .null)])

def respondError (cmd : UiCommand) (code message : String) : List UiEffect :=
  respond cmd (Json.ofList [("code", .string "error"),
    ("message", Json.ofList [("code", .string code), ("message", .string message)])])

/-- A queued command: the app's handler, which returns `result`, then the writes. -/
def deliver (cmd : UiCommand) (result : Except String Unit) (stored : Bool) : List UiEffect :=
  .onUiCommand cmd ::
    match result with
    | .ok () => ui.setValue cmd.name cmd.value stored ++ respondSuccess cmd
    | .error e => respondError cmd "INTERNAL_ERROR" e

/-- All that an event leads to. -/
def effects (ev : Event) (result : Except String Unit) (stored : Bool) : List UiEffect :=
  ((ui.handleEvent ev).2.map fun cmd => ui.deliver cmd result stored).getD []

/-- A manager with the same app key and a handler for each interaction. -/
def manager : RpcManager Unit where
  appKey := some ui.appKey
  handlers := .ofList (ui.interactions.map fun name => ((some UI_CMDS_CHANNEL, name), ()))

/-! ## The two filters -/

/-- The message is a command for one of the app's interactions. -/
structure Addressed (ev : Event) (data : Json) : Prop where
  message : ev.isMessageCreate = true ∨ ev.isOneShot = true
  rpc : (data.get? "type").bind asStr = some "rpc"
  method : ∃ method ∈ ui.interactions, (data.get? "method").bind asStr = some method
  app : ∀ target, (data.get? "app_key").bind asStr = some target → target = ui.appKey
  request : (data.get? "request").isSome = true

end UiRuntime

/-- The command must not be acted upon: its expiry has passed, or it was withdrawn. -/
def Guarded (now : ℤ) (ev : Event) (data : Json) : Prop :=
  (∃ id, ev.messageId = some id ∧ commandIsExpired id data now = true) ∨
    commandIsCancelled data = true

namespace UiRuntime
variable {ui : UiRuntime} {ev : Event} {data : Json}

/-- An event has one name, so a message event is no aggregate event. -/
theorem not_aggregate_of_message (h : ev.isMessageCreate = true ∨ ev.isOneShot = true) :
    (ev.isAggregateUpdate || ev.isChannelSync) = false := by
  rw [Event.isMessageCreate, Event.isOneShot, beq_iff_eq, beq_iff_eq] at h
  rw [Event.isAggregateUpdate, Event.isChannelSync]
  rcases h with h | h <;> rw [h] <;> rfl

theorem handleEvent_of_not_message (h : ¬ (ev.isMessageCreate = true ∨ ev.isOneShot = true)) :
    (ui.handleEvent ev).2 = none := by
  rw [← Bool.or_eq_true, Bool.not_eq_true] at h
  rw [handleEvent, h]
  split <;> rfl

/-- The UI runtime takes exactly the messages addressed to the app. -/
theorem handleEvent_isSome_iff :
    (ui.handleEvent ev).2.isSome = true ↔
      ∃ data, ev.messageData = some data ∧ ui.Addressed ev data := by
  by_cases hm : ev.isMessageCreate = true ∨ ev.isOneShot = true
  · have hb : (ev.isMessageCreate || ev.isOneShot) = true := Bool.or_eq_true_iff.mpr hm
    rw [handleEvent, not_aggregate_of_message hm, hb]
    simp only [Bool.false_eq_true, if_false, Bool.not_true, isSome_bind_iff,
      Option.guard_eq_some', exists_const, Option.all_eq_true, decide_eq_true_eq, Option.isSome_some, and_true]
    refine exists_congr fun data => and_congr_right fun _ => ?_
    constructor
    · rintro ⟨hrpc, method, hmethod, happ, hin, value, hval⟩
      exact ⟨hm, hrpc, ⟨method, List.contains_iff_mem.mp hin, hmethod⟩, happ,
        Option.isSome_of_eq_some hval⟩
    · rintro ⟨-, hrpc, ⟨method, hin, hmethod⟩, happ, hreq⟩
      obtain ⟨value, hval⟩ := Option.isSome_iff_exists.mp hreq
      exact ⟨hrpc, method, hmethod, happ, List.contains_iff_mem.mpr hin, value, hval⟩
  · rw [handleEvent_of_not_message hm]
    constructor
    · intro h
      exact absurd h Bool.false_ne_true
    · rintro ⟨data, -, haddr⟩
      exact absurd haddr.message hm

/-- The manager has a handler for exactly the interactions. -/
theorem manager_getHandler {method : String} :
    (ui.manager.getHandler UI_CMDS_CHANNEL method).isSome = true ↔ method ∈ ui.interactions := by
  have hkeys : ∀ k, k ∈ ui.manager.handlers.keys ↔
      ∃ name ∈ ui.interactions, (some UI_CMDS_CHANNEL, name) = k := by
    intro k
    rw [manager, IndexMap.mem_keys_ofList, List.map_map, List.mem_map]
    rfl
  have hany : ui.manager.handlers.get? (none, method) = none := by
    refine IndexMap.get?_eq_none_iff.mpr fun hmem => ?_
    obtain ⟨name, -, heq⟩ := (hkeys _).mp hmem
    cases heq
  rw [RpcManager.getHandler, hany, Option.or_none, Option.isSome_iff_exists,
    ← IndexMap.mem_keys_iff, hkeys]
  constructor
  · rintro ⟨name, hin, heq⟩
    cases heq
    exact hin
  · intro hin
    exact ⟨method, hin, rfl⟩

/-- The manager runs a handler on exactly the messages addressed to the app that
nothing forbids to act upon. -/
theorem manager_runs_isSome_iff (now : ℤ) (hch : ev.channel = UI_CMDS_CHANNEL) :
    (ui.manager.runs now ev).isSome = true ↔
      ∃ data, ev.messageData = some data ∧ ui.Addressed ev data ∧ ¬ Guarded now ev data := by
  by_cases hm : ev.isMessageCreate = true ∨ ev.isOneShot = true
  · have hb : (ev.isMessageCreate || ev.isOneShot) = true := Bool.or_eq_true_iff.mpr hm
    rw [RpcManager.runs, if_pos hb, RpcManager.acceptRequest]
    simp only [isSome_bind_iff, Option.guard_eq_some', exists_const, Option.all_eq_true, decide_eq_true_eq,
      Option.isSome_some, and_true, hch]
    refine exists_congr fun data => and_congr_right fun _ => ?_
    have hguard : ¬ Guarded now ev data ↔
        (!(ev.messageId.any fun id => commandIsExpired id data now)) = true ∧
          (!commandIsCancelled data) = true := by
      rw [Guarded, not_or, Bool.not_eq_true', Bool.not_eq_true', ← Bool.not_eq_true,
        ← Bool.not_eq_true, Option.any_eq_true]
    rw [hguard]
    constructor
    · rintro ⟨hrpc, method, hmethod, happ, request, hval, hexp, hcan, handler, hhandler⟩
      refine ⟨⟨hm, hrpc, ⟨method, ?_, hmethod⟩, ?_, Option.isSome_of_eq_some hval⟩, hexp, hcan⟩
      · exact manager_getHandler.mp (Option.isSome_of_eq_some hhandler)
      · intro target htarget
        exact (Option.some.inj (happ target htarget)).symm
    · rintro ⟨⟨-, hrpc, ⟨method, hin, hmethod⟩, happ, hreq⟩, hexp, hcan⟩
      obtain ⟨request, hval⟩ := Option.isSome_iff_exists.mp hreq
      obtain ⟨handler, hhandler⟩ := Option.isSome_iff_exists.mp (manager_getHandler.mpr hin)
      refine ⟨hrpc, method, hmethod, ?_, request, hval, hexp, hcan, handler, hhandler⟩
      intro target htarget
      exact congrArg some (happ target htarget).symm
  · have hb : ¬ (ev.isMessageCreate || ev.isOneShot) = true := fun h =>
      hm (Bool.or_eq_true_iff.mp h)
    rw [RpcManager.runs, if_neg hb]
    constructor
    · intro h
      exact absurd h Bool.false_ne_true
    · rintro ⟨data, -, haddr, -⟩
      exact absurd haddr.message hm

/-- An event has no effect exactly when it gives no command. -/
theorem effects_eq_nil_iff (result : Except String Unit) (stored : Bool) :
    ui.effects ev result stored = [] ↔ (ui.handleEvent ev).2 = none := by
  rw [effects]
  cases (ui.handleEvent ev).2 with
  | none => exact iff_of_true rfl rfl
  | some cmd => exact iff_of_false (List.cons_ne_nil _ _) (Option.some_ne_none _)

/-! ## Where they agree -/

/-- What a message on `ui_cmds` may do: a guarded one does nothing, and one becomes a
command exactly when the manager would run a handler on it. -/
def DropsLikeManager (ui : UiRuntime) (now : ℤ) (ev : Event) : Prop :=
  ((∃ data, ev.messageData = some data ∧ Guarded now ev data) →
    (ui.handleEvent ev).2 = none ∧ ∀ result stored, ui.effects ev result stored = []) ∧
  ((ui.handleEvent ev).2.isSome = true ↔ (ui.manager.runs now ev).isSome = true)

/-- **The two filters agree** on an event exactly when it is not a guarded command
for one of the app's interactions. -/
theorem dropsLikeManager_iff (ui : UiRuntime) (now : ℤ) (name : String) (payload : Json) :
    ui.DropsLikeManager now ⟨name, UI_CMDS_CHANNEL, payload⟩ ↔
      ∀ data, (Event.mk name UI_CMDS_CHANNEL payload).messageData = some data →
        ui.Addressed ⟨name, UI_CMDS_CHANNEL, payload⟩ data →
        ¬ Guarded now ⟨name, UI_CMDS_CHANNEL, payload⟩ data := by
  have hruns : (ui.manager.runs now ⟨name, UI_CMDS_CHANNEL, payload⟩).isSome = true ↔ _ :=
    manager_runs_isSome_iff now rfl
  rw [DropsLikeManager, hruns, handleEvent_isSome_iff]
  constructor
  · rintro ⟨-, hagree⟩ data hdata haddr hguard
    obtain ⟨data', hdata', -, hfree⟩ := hagree.mp ⟨data, hdata, haddr⟩
    obtain rfl : data = data' := Option.some.inj (hdata.symm.trans hdata')
    exact hfree hguard
  · intro hfree
    constructor
    · rintro ⟨data, hdata, hguard⟩
      have hnone : (ui.handleEvent ⟨name, UI_CMDS_CHANNEL, payload⟩).2 = none := by
        rw [← Option.not_isSome_iff_eq_none, handleEvent_isSome_iff]
        rintro ⟨data', hdata', haddr⟩
        obtain rfl : data = data' := Option.some.inj (hdata.symm.trans hdata')
        exact hfree data hdata haddr hguard
      exact ⟨hnone, fun result stored => (effects_eq_nil_iff result stored).mpr hnone⟩
    · constructor
      · rintro ⟨data, hdata, haddr⟩
        exact ⟨data, hdata, haddr, hfree data hdata haddr⟩
      · rintro ⟨data, hdata, haddr, -⟩
        exact ⟨data, hdata, haddr⟩

/-- A command to switch a pump on, withdrawn by its issuer before it arrives, is run,
written into the aggregate and answered with a success. -/
theorem withdrawn_command_runs :
    let ui : UiRuntime := ⟨"pump_app", .object .empty, ["pump_on"]⟩
    let data : Json := Json.ofList [("type", .string "rpc"), ("method", .string "pump_on"),
      ("request", .bool true),
      ("status", Json.ofList [("code", .string "error"),
        ("message", Json.ofList [("info", .string "Command cancelled")])])]
    let ev : Event := ⟨Event.MESSAGE_CREATE, UI_CMDS_CHANNEL,
      Json.ofList [("id", .string "42"), ("data", data)]⟩
    commandIsCancelled data = true ∧
      (ui.handleEvent ev).2 = some ⟨"pump_on", .bool true, some 42⟩ ∧
      ui.manager.runs 0 ev = none ∧ ¬ ui.DropsLikeManager 0 ev ∧
      ui.effects ev (.ok ()) true =
        [.onUiCommand ⟨"pump_on", .bool true, some 42⟩,
          .updateChannelAggregate "ui_cmds"
            (Json.ofList [("pump_app", Json.ofList [("pump_on", .bool true)])]),
          .createMessage "ui_cmds"
            (Json.ofList [("type", .string "log"), ("app_key", .string "pump_app"),
              ("key", .string "pump_on"), ("value", .bool true)]),
          .updateMessage "ui_cmds" 42
            (Json.ofList [("status", Json.ofList [("code", .string "success"), ("message", .null)]),
              ("response", .object .empty)])] := by
  intro ui data ev
  have hcancelled : commandIsCancelled data = true := rfl
  have hcmd : (ui.handleEvent ev).2 = some ⟨"pump_on", .bool true, some 42⟩ := rfl
  refine ⟨hcancelled, hcmd, rfl, ?_, rfl⟩
  rintro ⟨hdrop, -⟩
  obtain ⟨hnone, -⟩ := hdrop ⟨data, rfl, .inr hcancelled⟩
  rw [hcmd] at hnone
  cases hnone

end UiRuntime
end Doover
