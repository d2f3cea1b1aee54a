import Doover.DataClient
import Doover.StepRuns

/-! # Connection pings

A processor that is told when its device goes offline stores the time with the server, in the
connection config, before it pings; it keeps a copy of the config and stores only a time that
is new.  The copy is changed before the two writes are made.  When one of them fails the copy
has a time that the server never got, and the next ping takes it for stored
(`not_retried_of_storeFails`).

So in a run of pings the copy is the config last stored, all along, exactly when no store of a
new time fails (`mirrors_iff`).
-/

namespace Doover
open Json

/-- The seconds before a device that is not heard of counts as offline. -/
def DEFAULT_OFFLINE_AFTER_SECS : UInt64 := 60 * 60

/-- `Value::as_u64`: only an id may also be written as text. -/
def valueAsU64 : Json → Option ℕ
  | .number n => n.asU64
  | _ => none

def saturatingSub (a b : UInt64) : UInt64 := if b ≤ a then a - b else 0

structure PingOptions where
  /-- Now, unless given. -/
  onlineAtMs : Option UInt64
  connectionStatus : ConnectionStatus
  offlineAtMs : Option UInt64

/-- A ping, with the clock at its start and when it is sent, and what the server answers to the
writes of the config and of the ping. -/
structure Ping where
  opts : PingOptions
  now : UInt64
  sent : UInt64
  storeAnswers : ServerAnswers
  pingAnswers : ServerAnswers

def Ping.onlineAt (p : Ping) : UInt64 := p.opts.onlineAtMs.getD p.now

/-- What of its context a processor pings with. -/
structure ProcessorContext where
  api : DataClient
  agentId : ℕ
  appKey : String
  /-- The connection config. -/
  config : Json

namespace ProcessorContext
variable (ctx : ProcessorContext) (p : Ping)

def storedOfflineAfter : Option ℕ := (ctx.config.get? "offline_after").bind valueAsU64

def offlineAfterSecs : UInt64 :=
  match p.opts.offlineAtMs with
  | some offlineAt => saturatingSub offlineAt p.onlineAt / 1000
  | none => (ctx.storedOfflineAfter.map UInt64.ofNat).getD DEFAULT_OFFLINE_AFTER_SECS

def determination : ConnectionDetermination :=
  if saturatingSub p.now p.onlineAt > ctx.offlineAfterSecs p * 1000 then .offline else .online

/-- The config with a time that is new; one that is empty is left alone. -/
def updatedConfig : Option Json :=
  match ctx.config with
  | .object m =>
    if p.opts.offlineAtMs.isSome && !m.isEmpty &&
        ctx.storedOfflineAfter != some (ctx.offlineAfterSecs p).toNat then
      some (.object (m.insert "offline_after" (.ofU64 (ctx.offlineAfterSecs p))))
    else none
  | _ => none

/-- The store of a config that was updated. -/
def storeConfig (config : Json) : Call Unit :=
  ctx.api.updateConnectionConfig config (some ctx.agentId) p.storeAnswers

/-- The context after a ping, and what the ping sends and comes to. -/
def pingConnection : ProcessorContext × Call Unit :=
  ({ ctx with config := (ctx.updatedConfig p).getD ctx.config }, do
    if let some config := ctx.updatedConfig p then ctx.storeConfig p config
    ctx.api.pingConnectionAt
      { onlineAtMs := p.onlineAt
        connectionStatus := p.opts.connectionStatus
        determination := ctx.determination p
        pingAtMs := none
        userAgent := some ("doover-rs-processor,app_key=" ++ ctx.appKey)
        ipAddress := none
        agentId := some ctx.agentId } p.sent p.pingAnswers)

/-- A new time is not stored: one of the two writes fails. -/
def StoreFails : Prop :=
  ∃ config e, ctx.updatedConfig p = some config ∧ (ctx.storeConfig p config).result = .error e

section Fails
variable {ctx : ProcessorContext} {p : Ping} {config : Json}

theorem updatedConfig_eq_some (h : ctx.updatedConfig p = some config) :
    ∃ m, ctx.config = .object m ∧
      ctx.storedOfflineAfter ≠ some (ctx.offlineAfterSecs p).toNat ∧
      config = .object (m.insert "offline_after" (.ofU64 (ctx.offlineAfterSecs p))) := by
  unfold updatedConfig at h
  split at h
  · rename_i m hm
    split at h
    · rename_i hnew
      cases h
      rw [Bool.and_eq_true, bne_iff_ne] at hnew
      exact ⟨m, hm, hnew.2, rfl⟩
    · cases h
  · cases h

theorem valueAsU64_ofU64 (n : UInt64) : valueAsU64 (.ofU64 n) = some n.toNat := by
  simp [ofU64, ofInt, valueAsU64, Number.asU64]

/-- An updated config has the new time. -/
theorem storedOfflineAfter_of_updated (h : ctx.updatedConfig p = some config) :
    ((config.get? "offline_after").bind valueAsU64) = some (ctx.offlineAfterSecs p).toNat := by
  obtain ⟨m, -, -, rfl⟩ := updatedConfig_eq_some h
  rw [get?_object, IndexMap.get?_insert_self, Option.bind_some, valueAsU64_ofU64]

theorem ne_of_updated (h : ctx.updatedConfig p = some config) : config ≠ ctx.config := by
  rintro rfl
  obtain ⟨-, -, hnew, -⟩ := updatedConfig_eq_some h
  exact hnew (storedOfflineAfter_of_updated h)

/-- After a failed store the copy has the time, so that the same time is not stored again. -/
theorem not_retried_of_storeFails (h : ctx.StoreFails p) {next : Ping}
    (hsame : (ctx.pingConnection p).1.offlineAfterSecs next = ctx.offlineAfterSecs p) :
    (ctx.pingConnection p).1.updatedConfig next = none := by
  obtain ⟨config, -, hconfig, -⟩ := h
  have hcopy : (ctx.pingConnection p).1.config = config := by
    rw [pingConnection, hconfig, Option.getD_some]
  cases hnext : (ctx.pingConnection p).1.updatedConfig next with
  | none => rfl
  | some config' =>
    obtain ⟨-, -, hnew, -⟩ := updatedConfig_eq_some hnext
    rw [storedOfflineAfter, hcopy, storedOfflineAfter_of_updated hconfig, hsame] at hnew
    exact absurd rfl hnew

end Fails
end ProcessorContext

/-! ## The server's config -/

/-- A processor, and the config of the last store that succeeded. -/
structure Mirror where
  ctx : ProcessorContext
  stored : Json

namespace Mirror
open StepRuns ProcessorContext

/-- The context as it is made, from the server's config. -/
def seeded (ctx : ProcessorContext) : Mirror := ⟨ctx, ctx.config⟩

def step (w : Mirror) (p : Ping) : Mirror where
  ctx := (w.ctx.pingConnection p).1
  stored :=
    match w.ctx.updatedConfig p with
    | some config =>
      match (w.ctx.storeConfig p config).result with
      | .ok _ => config
      | .error _ => w.stored
    | none => w.stored

/-- The copy is the server's config. -/
def Exact (w : Mirror) : Prop := w.ctx.config = w.stored

/-- When its store fails, a ping leaves the next one as much to store as it had. -/
def Retries (w : Mirror) (p : Ping) : Prop :=
  w.ctx.StoreFails p → ∀ next, (step w p).ctx.updatedConfig next = w.ctx.updatedConfig next

/-- **One ping.** -/
theorem exact_step_iff {w : Mirror} (h : w.Exact) (p : Ping) :
    (step w p).Exact ↔ ¬ w.ctx.StoreFails p := by
  unfold Exact step
  rw [pingConnection]
  cases hconfig : w.ctx.updatedConfig p with
  | none => exact iff_of_true h fun ⟨config, _, hfails, _⟩ => by cases hconfig.symm.trans hfails
  | some config =>
    simp only [Option.getD_some]
    cases hresult : (w.ctx.storeConfig p config).result with
    | ok u =>
      refine iff_of_true rfl fun ⟨config', e, hconfig', herror⟩ => ?_
      obtain rfl := Option.some.inj (hconfig.symm.trans hconfig')
      cases hresult.symm.trans herror
    | error e =>
      refine iff_of_false (fun hsame => ne_of_updated hconfig (hsame.trans h.symm)) fun hfails => ?_
      exact hfails ⟨config, e, hconfig, hresult⟩

/-- **The copy of the connection config.**  It is the config last stored, all along a run of
pings, and a store that failed is tried again, if and only if no store of a new time fails. -/
theorem mirrors_iff (ctx : ProcessorContext) (pings : List Ping) :
    ((∀ pre, pre <+: pings → (exec step (seeded ctx) pre).Exact) ∧
      ∀ pre p, pre ++ [p] <+: pings → (exec step (seeded ctx) pre).Retries p) ↔
    ∀ pre p, pre ++ [p] <+: pings → ¬ (exec step (seeded ctx) pre).ctx.StoreFails p := by
  have hexact : (∀ pre, pre <+: pings → (exec step (seeded ctx) pre).Exact) ↔
      ∀ pre p, pre ++ [p] <+: pings → ¬ (exec step (seeded ctx) pre).ctx.StoreFails p := by
    refine forall_prefix_iff rfl fun pre p _ h => ?_
    rw [exec_concat]
    exact exact_step_iff h p
  rw [hexact]
  constructor
  · rintro ⟨h, -⟩
    exact h
  · intro h
    exact ⟨h, fun pre p hpre hfails => absurd hfails (h pre p hpre)⟩

/-! ### A minute that is not stored -/

/-- The server answers nothing. -/
def unreachable : ServerAnswers := fun _ _ => .transport "connection refused"

def device : ProcessorContext where
  api := ⟨"", some 1, some "app", none, 1⟩
  agentId := 1
  appKey := "app"
  config := Json.ofList [("offline_after", .ofU64 3600)]

def minutePing : Ping where
  opts := ⟨some 0, .periodicUnknown, some 60000⟩
  now := 0
  sent := 0
  storeAnswers := unreachable
  pingAnswers := unreachable

/-- The ping fails, the copy has the minute, and the same ping has nothing to store. -/
theorem minute_lost :
    let after := step (seeded device) minutePing
    (device.pingConnection minutePing).2.result.toOption = none ∧
      after.stored = device.config ∧ ¬ after.Exact ∧
      (device.updatedConfig minutePing).isSome = true ∧
      after.ctx.updatedConfig minutePing = none := by
  have hfails : device.StoreFails minutePing := ⟨_, _, rfl, rfl⟩
  have hlost := (exact_step_iff (w := seeded device) rfl minutePing).not_left.mpr hfails
  exact ⟨rfl, rfl, hlost, rfl, not_retried_of_storeFails hfails rfl⟩

end Mirror
end Doover
