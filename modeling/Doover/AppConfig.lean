import Doover.Events
import Doover.ProcessorTags
import Doover.StepRuns

/-! # The config of an application

The app's config is `applications.<app_key>` of the `deployment_config` aggregate.  It is
kept three times: raw in the context (what `ctx.config()` and the `$config` references of
the UI read), typed in the application (what it was created with or was last given), and,
when a cache file is set, on disk for the next start.

`applyDeploymentConfig` replaces the raw config and writes the file first; whether the
typed config can be loaded from it is found out afterwards.  So a config that the
application does not accept stays on disk (`last_known_good_iff`) and stays the raw config
of an application that runs on another one (`raw_agrees_with_typed_iff`).
-/

namespace Doover
open Json StepRuns

/-- What is at the path of the config cache. -/
inductive CacheFile where
  | absent
  | unreadable
  | document (config : Json)

/-- An application type, by what the runner asks of its config. -/
structure AppType (C : Type) where
  fromValue : Json → Except DooverError C
  /-- The config has a schema with elements. -/
  declaresSchema : Bool

/-- The part of the context that the config goes into. -/
structure AppContext where
  appKey : String
  config : Json
  agentId : Option Json
  appDisplayName : String
  /-- The cache file; `none` when no cache is set. -/
  configCache : Option CacheFile

/-- The app's part of a `deployment_config` aggregate. -/
def appConfigOf (appKey : String) (aggregate : Json) : Option Json :=
  (aggregate.get? "applications").bind (·.get? appKey)

def writeConfigCache (_ : CacheFile) (appConfig : Json) : CacheFile := .document appConfig

def readConfigCache : CacheFile → Option Json
  | .document config => some config
  | _ => none

namespace AppContext
variable (ctx : AppContext)

def new (appKey : String) (configCache : Option CacheFile) : AppContext :=
  ⟨appKey, .null, none, "", configCache⟩

def applyAppConfig (appConfig : Json) : AppContext :=
  { ctx with
    agentId := appConfig.get? "AGENT_ID"
    appDisplayName := ((appConfig.get? "APP_DISPLAY_NAME").bind asStr).getD ""
    config := appConfig }

/-- A missing app config is replaced by an empty one, which is not saved. -/
def applyDeploymentConfig (fullAggregate : Json) : AppContext :=
  match appConfigOf ctx.appKey fullAggregate with
  | some appConfig =>
    { ctx with
      configCache := ctx.configCache.map (writeConfigCache · appConfig) }.applyAppConfig appConfig
  | none => ctx.applyAppConfig (.object .empty)

end AppContext

/-- What a start gets: the config file, when one is set, and the fetched aggregate. -/
structure Startup where
  configFp : Option (Except DooverError Json)
  fetched : Except DooverError (Option Json)

namespace Startup
variable (s : Startup)

/-- The app config among what was fetched. -/
def appConfig (appKey : String) : Option Json :=
  match s.fetched with
  | .ok (some aggregate) => appConfigOf appKey aggregate
  | _ => none

end Startup

/-- The config bootstrap of `run_with`: what it leaves the context as, and whether it goes
on. -/
def bootstrap {C : Type} (app : AppType C) (ctx : AppContext) (s : Startup) :
    AppContext × Except DooverError Unit :=
  match s.configFp with
  | some (.ok root) => ({ ctx with config := root }, .ok ())
  | some (.error e) => (ctx, .error e)
  | none =>
    if ctx.appKey.isEmpty then (ctx, .ok ())
    else
      let cached :=
        if (s.appConfig ctx.appKey).isSome then none else ctx.configCache.bind readConfigCache
      match s.fetched, cached with
      -- the agent has nothing for the app: it runs on the cached config
      | _, some cached => (ctx.applyAppConfig cached, .ok ())
      | .ok (some aggregate), none => (ctx.applyDeploymentConfig aggregate, .ok ())
      | .error e, none =>
        if app.declaresSchema then
          (ctx, .error ⟨"RuntimeError",
            "failed to load initial deployment config: " ++ e.message⟩)
        else (ctx, .ok ())
      | .ok none, none =>
        if app.declaresSchema then
          (ctx, .error ⟨"RuntimeError", "failed to load initial deployment config: " ++
            "the DDA has no deployment config for this device"⟩)
        else (ctx, .ok ())

/-- The device: the context of the application, and while it runs the typed config it was
last given. -/
structure Host (C : Type) where
  ctx : AppContext
  typedConfig : Option C
  /-- `deployment_config` is subscribed to. -/
  subscribed : Bool

/-- What happens to an application: it starts, again after it ended, or the agent's
`deployment_config` changes. -/
inductive HostAct where
  | start (s : Startup)
  | configUpdate (ev : Event)

namespace Host
variable {C : Type} (app : AppType C) (h : Host C)

/-- A start that fails leaves the cache file as it wrote it. -/
def start (s : Startup) : Host C :=
  let (ctx, result) := bootstrap app (.new h.ctx.appKey h.ctx.configCache) s
  { ctx
    typedConfig :=
      match result, app.fromValue ctx.config with
      | .ok (), .ok config => some config
      | _, _ => none
    subscribed := s.configFp.isNone && !h.ctx.appKey.isEmpty }

/-- A `ConfigUpdate` taken off the queue. -/
def handleConfigUpdate (ev : Event) : Host C :=
  match ev.aggregateData with
  | none => h
  | some data =>
    let ctx := h.ctx.applyDeploymentConfig data
    match app.fromValue ctx.config with
    | .ok config => { h with ctx, typedConfig := some config }
    | .error _ => { h with ctx }

def step : HostAct → Host C
  | .start s => h.start app s
  | .configUpdate ev =>
    if h.typedConfig.isSome && h.subscribed then h.handleConfigUpdate app ev else h

/-- The app config that the action receives. -/
def received : HostAct → Option Json
  | .start s =>
    if s.configFp.isNone && !h.ctx.appKey.isEmpty then s.appConfig h.ctx.appKey else none
  | .configUpdate ev =>
    if h.typedConfig.isSome && h.subscribed then
      ev.aggregateData.bind (appConfigOf h.ctx.appKey)
    else none

end Host

/-! ## What the steps do to the config -/

namespace AppContext
variable {ctx : AppContext} {aggregate : Json}

theorem applyDeploymentConfig_of_some {appConfig : Json}
    (h : appConfigOf ctx.appKey aggregate = some appConfig) :
    ctx.applyDeploymentConfig aggregate =
      { ctx with
        configCache := ctx.configCache.map (writeConfigCache · appConfig) }.applyAppConfig
          appConfig := by
  rw [applyDeploymentConfig, h]

theorem applyDeploymentConfig_of_none (h : appConfigOf ctx.appKey aggregate = none) :
    ctx.applyDeploymentConfig aggregate = ctx.applyAppConfig (.object .empty) := by
  rw [applyDeploymentConfig, h]

@[simp] theorem applyDeploymentConfig_appKey :
    (ctx.applyDeploymentConfig aggregate).appKey = ctx.appKey := by
  rw [applyDeploymentConfig]
  split <;> rfl

theorem applyDeploymentConfig_config :
    (ctx.applyDeploymentConfig aggregate).config =
      (appConfigOf ctx.appKey aggregate).getD (.object .empty) := by
  rw [applyDeploymentConfig]
  split <;> (rename_i h; rw [h]; rfl)

end AppContext

namespace Host
variable {C : Type} {app : AppType C} {h : Host C}

/-- The file after a config was received, if one was. -/
def cacheAfter (cache : Option CacheFile) (received : Option Json) : Option CacheFile :=
  (received.map fun appConfig => cache.map (writeConfigCache · appConfig)).getD cache

theorem applyDeploymentConfig_configCache {ctx : AppContext} {aggregate : Json} :
    (ctx.applyDeploymentConfig aggregate).configCache =
      cacheAfter ctx.configCache (appConfigOf ctx.appKey aggregate) := by
  cases hconfig : appConfigOf ctx.appKey aggregate with
  | some appConfig => rw [AppContext.applyDeploymentConfig_of_some hconfig]; rfl
  | none => rw [AppContext.applyDeploymentConfig_of_none hconfig]; rfl

theorem handleConfigUpdate_ctx {ev : Event} {data : Json} (hdata : ev.aggregateData = some data) :
    (h.handleConfigUpdate app ev).ctx = h.ctx.applyDeploymentConfig data := by
  rw [handleConfigUpdate, hdata]
  simp only
  split <;> rfl

/-- A bootstrap that finds no app config leaves the file alone. -/
theorem bootstrap_ctx_of_appConfig_none {ctx : AppContext} {s : Startup} (hfp : s.configFp = none)
    (hkey : ctx.appKey.isEmpty = false) (hnone : s.appConfig ctx.appKey = none) :
    (bootstrap app ctx s).1.appKey = ctx.appKey ∧
      (bootstrap app ctx s).1.configCache = ctx.configCache := by
  simp only [bootstrap, hfp, hkey, hnone, Option.isSome_none, Bool.false_eq_true, if_false]
  cases ctx.configCache.bind readConfigCache with
  | some cached => exact ⟨rfl, rfl⟩
  | none =>
    cases hfetched : s.fetched with
    | error e => cases app.declaresSchema <;> exact ⟨rfl, rfl⟩
    | ok fetched =>
      cases fetched with
      | none => cases app.declaresSchema <;> exact ⟨rfl, rfl⟩
      | some aggregate =>
        rw [Startup.appConfig, hfetched] at hnone
        simp only [AppContext.applyDeploymentConfig_of_none hnone]
        exact ⟨rfl, rfl⟩

/-- An app config that was fetched is in the aggregate that was. -/
theorem exists_fetched_of_appConfig {s : Startup} {appKey : String} {appConfig : Json}
    (h : s.appConfig appKey = some appConfig) :
    ∃ aggregate, s.fetched = .ok (some aggregate) ∧ appConfigOf appKey aggregate = some appConfig := by
  rw [Startup.appConfig] at h
  split at h
  · exact ⟨_, ‹_›, h⟩
  · cases h

/-- A bootstrap writes the app config that was fetched, when it looks for one. -/
theorem bootstrap_ctx (ctx : AppContext) (s : Startup) :
    (bootstrap app ctx s).1.appKey = ctx.appKey ∧
      (bootstrap app ctx s).1.configCache = cacheAfter ctx.configCache
        (if s.configFp.isNone && !ctx.appKey.isEmpty then s.appConfig ctx.appKey else none) := by
  cases hfp : s.configFp with
  | some root =>
    cases root with
    | ok root => rw [bootstrap, hfp]; exact ⟨rfl, rfl⟩
    | error e => rw [bootstrap, hfp]; exact ⟨rfl, rfl⟩
  | none =>
    cases hkey : ctx.appKey.isEmpty with
    | true =>
      simp only [bootstrap, hfp, hkey, if_true, true_and]
      rfl
    | false =>
      show _ ∧ _ = cacheAfter ctx.configCache (s.appConfig ctx.appKey)
      cases hconfig : s.appConfig ctx.appKey with
      | none => exact bootstrap_ctx_of_appConfig_none hfp hkey hconfig
      | some appConfig =>
        obtain ⟨aggregate, hfetched, happ⟩ := exists_fetched_of_appConfig hconfig
        simp only [bootstrap, hfp, hkey, hconfig, hfetched, Option.isSome_some, Bool.false_eq_true,
          if_false, if_true, AppContext.applyDeploymentConfig_of_some happ]
        exact ⟨rfl, rfl⟩

/-- **What is on disk.**  An action saves the app config that it receives. -/
theorem step_ctx (a : HostAct) :
    (h.step app a).ctx.appKey = h.ctx.appKey ∧
      (h.step app a).ctx.configCache = cacheAfter h.ctx.configCache (h.received a) := by
  cases a with
  | start s => exact bootstrap_ctx (.new h.ctx.appKey h.ctx.configCache) s
  | configUpdate ev =>
    rw [step, received]
    split
    · cases hdata : ev.aggregateData with
      | none => rw [handleConfigUpdate, hdata]; exact ⟨rfl, rfl⟩
      | some data =>
        rw [handleConfigUpdate_ctx hdata]
        exact ⟨AppContext.applyDeploymentConfig_appKey, applyDeploymentConfig_configCache⟩
    · exact ⟨rfl, rfl⟩

/-! ## The raw and the typed config -/

/-- The app runs on what its raw config loads as. -/
def Agrees (app : AppType C) (h : Host C) : Prop :=
  ∀ config, h.typedConfig = some config → app.fromValue h.ctx.config = .ok config

/-- The config that an update puts in place: the app's own, or an empty one. -/
def injected (appKey : String) (data : Json) : Json :=
  (appConfigOf appKey data).getD (.object .empty)

/-- After the event the raw and the typed config agree, and an update whose config is
rejected has left the raw one, the agent id and the display name as they were. -/
def UpdateAgrees (app : AppType C) (h : Host C) (ev : Event) : Prop :=
  Agrees app (h.handleConfigUpdate app ev) ∧
    ∀ data e, ev.aggregateData = some data →
      app.fromValue (injected h.ctx.appKey data) = .error e →
        (h.handleConfigUpdate app ev).ctx.config = h.ctx.config ∧
          (h.handleConfigUpdate app ev).ctx.agentId = h.ctx.agentId ∧
            (h.handleConfigUpdate app ev).ctx.appDisplayName = h.ctx.appDisplayName

/-- A start hands the application what its raw config loads as. -/
theorem agrees_start (s : Startup) : Agrees app (h.start app s) := by
  intro config hconfig
  rw [start] at hconfig
  simp only at hconfig
  split at hconfig
  · rename_i hload
    cases hconfig
    exact hload
  · cases hconfig

theorem handleConfigUpdate_appKey (ev : Event) :
    (h.handleConfigUpdate app ev).ctx.appKey = h.ctx.appKey := by
  cases hdata : ev.aggregateData with
  | none => rw [handleConfigUpdate, hdata]
  | some data => rw [handleConfigUpdate_ctx hdata, AppContext.applyDeploymentConfig_appKey]

theorem handleConfigUpdate_typedConfig_isSome (ev : Event) (hrunning : h.typedConfig.isSome = true) :
    (h.handleConfigUpdate app ev).typedConfig.isSome = true := by
  rw [handleConfigUpdate]
  split
  · exact hrunning
  · simp only
    split
    · rfl
    · exact hrunning

/-- **One update.**  It keeps the two configs in agreement exactly when the config it puts in
place is accepted. -/
theorem updateAgrees_iff {ev : Event} (hrunning : h.typedConfig.isSome = true)
    (hagrees : Agrees app h) :
    UpdateAgrees app h ev ↔ ∀ data, ev.aggregateData = some data →
      ∃ config, app.fromValue (injected h.ctx.appKey data) = .ok config := by
  cases hdata : ev.aggregateData with
  | none =>
    refine iff_of_true ⟨?_, by simp [hdata]⟩ (by simp)
    rw [handleConfigUpdate, hdata]
    exact hagrees
  | some data =>
    have hconfig : (h.handleConfigUpdate app ev).ctx.config = injected h.ctx.appKey data := by
      rw [handleConfigUpdate_ctx hdata, AppContext.applyDeploymentConfig_config, injected]
    simp only [Option.some.injEq, forall_eq']
    constructor
    · intro hupdate
      have hstill : (h.handleConfigUpdate app ev).typedConfig.isSome = true :=
        handleConfigUpdate_typedConfig_isSome ev hrunning
      obtain ⟨config, hsome⟩ := Option.isSome_iff_exists.mp hstill
      exact ⟨config, hconfig ▸ hupdate.1 config hsome⟩
    · rintro ⟨config, hload⟩
      refine ⟨fun config' hconfig' => ?_, fun data' e hdata' herror => ?_⟩
      · rw [hconfig, hload]
        rw [injected] at hload
        rw [handleConfigUpdate, hdata] at hconfig'
        simp only [AppContext.applyDeploymentConfig_config, hload] at hconfig'
        rw [Option.some.inj hconfig']
      · obtain rfl := Option.some.inj (hdata.symm.trans hdata')
        rw [hload] at herror
        cases herror

theorem running_exec (hrunning : h.typedConfig.isSome = true) (evs : List Event) :
    (exec (handleConfigUpdate app) h evs).typedConfig.isSome = true ∧
      (exec (handleConfigUpdate app) h evs).ctx.appKey = h.ctx.appKey := by
  refine exec_invariant (handleConfigUpdate app)
    (I := fun h' => h'.typedConfig.isSome = true ∧ h'.ctx.appKey = h.ctx.appKey)
    ⟨hrunning, rfl⟩ fun h' hh' ev _ => ?_
  exact ⟨handleConfigUpdate_typedConfig_isSome ev hh'.1,
    (handleConfigUpdate_appKey ev).trans hh'.2⟩

/-- **When the raw and the typed config agree.**  After a start that succeeds and in every
sequence of updates, each update keeps them in agreement exactly when every update puts a
config in place that the application accepts. -/
theorem raw_agrees_with_typed_iff (app : AppType C) (h : Host C) (s : Startup)
    (evs : List Event) (hstart : (h.start app s).typedConfig.isSome = true) :
    (∀ pre ev, pre ++ [ev] <+: evs →
        UpdateAgrees app (exec (handleConfigUpdate app) (h.start app s) pre) ev) ↔
      ∀ ev ∈ evs, ∀ data, ev.aggregateData = some data →
        ∃ config, app.fromValue (injected h.ctx.appKey data) = .ok config := by
  have hkey : (h.start app s).ctx.appKey = h.ctx.appKey := (step_ctx (.start s)).1
  have hstep : ∀ pre ev, Agrees app (exec (handleConfigUpdate app) (h.start app s) pre) →
      (UpdateAgrees app (exec (handleConfigUpdate app) (h.start app s) pre) ev ↔
        ∀ data, ev.aggregateData = some data →
          ∃ config, app.fromValue (injected h.ctx.appKey data) = .ok config) := by
    intro pre ev hagrees
    obtain ⟨hrunning, happ⟩ : (exec (handleConfigUpdate app) (h.start app s) pre).typedConfig.isSome =
        true ∧ _ := running_exec hstart pre
    rw [updateAgrees_iff hrunning hagrees, happ, hkey]
  constructor
  · intro hall
    have hagrees : ∀ pre, pre <+: evs →
        Agrees app (exec (handleConfigUpdate app) (h.start app s) pre) := by
      refine prefix_induction (agrees_start s) fun pre ev hpre _ => ?_
      rw [exec_concat]
      exact (hall pre ev hpre).1
    intro ev hev
    obtain ⟨pre, post, rfl⟩ := List.append_of_mem hev
    have hpre : pre ++ [ev] <+: pre ++ ev :: post := ⟨post, by simp⟩
    exact (hstep pre ev (hagrees pre (List.prefix_append ..))).mp (hall pre ev hpre)
  · intro haccepted
    have hagrees : ∀ pre, pre <+: evs →
        Agrees app (exec (handleConfigUpdate app) (h.start app s) pre) := by
      refine prefix_induction (agrees_start s) fun pre ev hpre ih => ?_
      rw [exec_concat]
      exact ((hstep pre ev ih).mpr (haccepted ev (hpre.subset (by simp)))).1
    intro pre ev hpre
    refine (hstep pre ev (hagrees pre ((List.prefix_append ..).trans hpre))).mpr ?_
    exact haccepted ev (hpre.subset (by simp))

/-! ## The cache file -/

/-- The config is one that the application loads. -/
def Accepts (app : AppType C) (appConfig : Json) : Prop :=
  ∃ config, app.fromValue appConfig = .ok config

/-- The cache file is absent, or holds a config that the application loads. -/
def CacheAccepted (app : AppType C) (h : Host C) : Prop :=
  ∀ file, h.ctx.configCache = some file →
    file = .absent ∨ ∃ appConfig, file = .document appConfig ∧ Accepts app appConfig

end Host

/-- A device, with the last config received that the application loads. -/
structure TrackedHost (C : Type) where
  host : Host C
  /-- At first, what the cache file holds. -/
  lastGood : Option Json

namespace TrackedHost
open Host
variable {C : Type} (app : AppType C)

def new (h : Host C) : TrackedHost C := ⟨h, h.ctx.configCache.bind readConfigCache⟩

def step (t : TrackedHost C) (a : HostAct) : TrackedHost C where
  host := t.host.step app a
  lastGood := ((t.host.received a).filter fun appConfig =>
    (app.fromValue appConfig).isOk).or t.lastGood

/-- The cache file, when there is one, holds the last good config. -/
def LastKnownGood (t : TrackedHost C) : Prop :=
  ∀ file, t.host.ctx.configCache = some file → file ≠ .absent →
    ∃ appConfig, file = .document appConfig ∧ Accepts app appConfig ∧
      t.lastGood = some appConfig

variable {app} {t : TrackedHost C}

theorem accepts_iff {appConfig : Json} :
    Accepts app appConfig ↔ (app.fromValue appConfig).isOk = true := by
  rw [Accepts]
  cases app.fromValue appConfig with
  | ok config => exact iff_of_true ⟨config, rfl⟩ rfl
  | error e => exact iff_of_false (by simp) Bool.false_ne_true

theorem lastKnownGood_new {h : Host C} (hcache : CacheAccepted app h) :
    (TrackedHost.new h).LastKnownGood app := by
  intro file hfile hpresent
  obtain ⟨appConfig, rfl, haccepts⟩ := (hcache file hfile).resolve_left hpresent
  refine ⟨appConfig, rfl, haccepts, ?_⟩
  have hdocument : h.ctx.configCache = some (.document appConfig) := hfile
  rw [new, hdocument]
  rfl

/-- **One action.**  The cache stays good exactly when what is received is accepted. -/
theorem lastKnownGood_step (a : HostAct) (hgood : t.LastKnownGood app) :
    (t.step app a).LastKnownGood app ↔
      (t.host.ctx.configCache ≠ none →
        ∀ appConfig, t.host.received a = some appConfig → Accepts app appConfig) := by
  have hstep : (t.host.step app a).ctx.appKey = _ ∧ (t.host.step app a).ctx.configCache = _ :=
    step_ctx a
  have hafter : (t.step app a).host.ctx.configCache =
      cacheAfter t.host.ctx.configCache (t.host.received a) := hstep.2
  rw [LastKnownGood, hafter]
  cases hreceived : t.host.received a with
  | none =>
    have hlast : (t.step app a).lastGood = t.lastGood := by
      rw [step, hreceived]
      rfl
    rw [hlast]
    exact iff_of_true hgood (by simp)
  | some appConfig =>
    cases hfile : t.host.ctx.configCache with
    | none => exact iff_of_true (by simp [cacheAfter]) (by simp)
    | some file =>
      simp only [cacheAfter, Option.map_some, Option.getD_some, writeConfigCache,
        Option.some.injEq, forall_eq', ne_eq, reduceCtorEq, not_false_eq_true, forall_const,
        CacheFile.document.injEq, exists_eq_left']
      constructor
      · exact fun h => h.1
      · intro haccepts
        refine ⟨haccepts, ?_⟩
        rw [step, hreceived, Option.filter_some, if_pos (accepts_iff.mp haccepts)]
        rfl

theorem configCache_exec (t : TrackedHost C) (acts : List HostAct) :
    (exec (step app) t acts).host.ctx.configCache = none ↔ t.host.ctx.configCache = none := by
  refine exec_invariant (step app)
    (I := fun t' => t'.host.ctx.configCache = none ↔ t.host.ctx.configCache = none) Iff.rfl
    fun t' ht' a _ => ?_
  have hstep : (t'.host.step app a).ctx.appKey = _ ∧ (t'.host.step app a).ctx.configCache = _ :=
    step_ctx a
  have hafter : (t'.step app a).host.ctx.configCache = _ := hstep.2
  rw [hafter, ← ht']
  cases t'.host.received a with
  | none => exact Iff.rfl
  | some appConfig => exact Option.map_eq_none_iff

/-- **When the cache is last-known-good.**  From a cache that is absent or accepted, in every
sequence of starts and updates, the file holds the last accepted config all along exactly
when no cache is set or every config received is accepted. -/
theorem last_known_good_iff (app : AppType C) (h : Host C) (acts : List HostAct)
    (hcache : CacheAccepted app h) :
    (∀ pre, pre <+: acts → (exec (step app) (.new h) pre).LastKnownGood app) ↔
      (h.ctx.configCache ≠ none → ∀ pre a, pre ++ [a] <+: acts → ∀ appConfig,
        (exec (step app) (.new h) pre).host.received a = some appConfig →
          Accepts app appConfig) := by
  have hexact : (∀ pre, pre <+: acts → _) ↔ _ := forall_prefix_iff
    (P := fun pre => (exec (step app) (.new h) pre).LastKnownGood app)
    (C := fun pre a => h.ctx.configCache ≠ none → ∀ appConfig,
      (exec (step app) (.new h) pre).host.received a = some appConfig → Accepts app appConfig)
    (lastKnownGood_new hcache) fun pre a _ hgood => by
      have hset : (exec (step app) (.new h) pre).host.ctx.configCache ≠ none ↔
          h.ctx.configCache ≠ none := not_congr (configCache_exec (.new h) pre)
      rw [exec_concat, lastKnownGood_step a hgood, hset]
  rw [hexact]
  constructor
  · exact fun hall hset pre a hpre => hall pre a hpre hset
  · exact fun hall pre a hpre hset => hall hset pre a hpre

end TrackedHost

/-! ## An application with one required element -/

/-- An application whose config is a number. -/
def rateApp : AppType Number where
  fromValue v :=
    match v.get? "rate" with
    | some (.number n) => .ok n
    | _ => .error ⟨"RuntimeError", "rate: expected a number"⟩
  declaresSchema := true

/-- An aggregate with the app's config. -/
def rateAggregate (rate : Json) : Json :=
  .ofList [("applications", .ofList [("app", .ofList [("rate", rate)])])]

def updateOf (aggregate : Json) : Event :=
  ⟨Event.AGGREGATE_UPDATE, "deployment_config",
    .ofList [("aggregate", .ofList [("data", aggregate)])]⟩

def noApplications : Json := .ofList [("applications", .object .empty)]

def oneJson : Json := .ofInt 1 (by decide)

/-- A device with an empty cache. -/
def freshHost : Host Number := ⟨.new "app" (some .absent), none, false⟩

namespace Host

/-- The equivalence for a config that is accepted and then taken away. -/
theorem raw_agrees_with_typed_iff_removed :
    (∀ pre ev, pre ++ [ev] <+: [updateOf noApplications] →
        UpdateAgrees rateApp (exec (handleConfigUpdate rateApp)
          (freshHost.start rateApp ⟨none, .ok (some (rateAggregate oneJson))⟩) pre) ev) ↔
      ∀ ev ∈ [updateOf noApplications], ∀ data, ev.aggregateData = some data →
        ∃ config, rateApp.fromValue (injected freshHost.ctx.appKey data) = .ok config :=
  raw_agrees_with_typed_iff rateApp freshHost ⟨none, .ok (some (rateAggregate oneJson))⟩ _ rfl

/-- The config is taken away: the raw config is empty, the app runs on its old one. -/
theorem removed_config_diverges :
    let h := freshHost.start rateApp ⟨none, .ok (some (rateAggregate oneJson))⟩
    let h' := h.handleConfigUpdate rateApp (updateOf noApplications)
    h.ctx.config = .ofList [("rate", oneJson)] ∧ h'.ctx.config = .object .empty ∧
      h'.typedConfig = h.typedConfig ∧ h'.typedConfig.isSome = true ∧
      ¬ UpdateAgrees rateApp h (updateOf noApplications) := by
  intro h h'
  refine ⟨rfl, rfl, rfl, rfl, ?_⟩
  rintro ⟨hagrees, -⟩
  have hload := hagrees (.int 1 (by decide)) rfl
  cases hload

end Host

namespace TrackedHost

/-- The equivalence for a start and an update that is rejected. -/
theorem last_known_good_iff_rejected :
    (∀ pre, pre <+: [.start ⟨none, .ok (some (rateAggregate oneJson))⟩,
          .configUpdate (updateOf (rateAggregate (.string "fast")))] →
        (exec (step rateApp) (.new freshHost) pre).LastKnownGood rateApp) ↔
      (freshHost.ctx.configCache ≠ none → ∀ pre a,
        pre ++ [a] <+: [.start ⟨none, .ok (some (rateAggregate oneJson))⟩,
          .configUpdate (updateOf (rateAggregate (.string "fast")))] → ∀ appConfig,
        (exec (step rateApp) (.new freshHost) pre).host.received a = some appConfig →
          Host.Accepts rateApp appConfig) :=
  last_known_good_iff rateApp freshHost _ fun _ hfile => .inl (Option.some.inj hfile).symm

/-- A config that the running app rejects replaces the good one in the cache, and the next
start without the agent fails on it. -/
theorem rejected_config_cached :
    let t := exec (step rateApp) (.new freshHost)
      [.start ⟨none, .ok (some (rateAggregate oneJson))⟩,
        .configUpdate (updateOf (rateAggregate (.string "fast")))]
    t.host.typedConfig = some (.int 1 (by decide)) ∧
      t.host.ctx.configCache = some (.document (.ofList [("rate", .string "fast")])) ∧
      (t.host.start rateApp ⟨none, .ok none⟩).typedConfig = none ∧
      ¬ t.LastKnownGood rateApp := by
  intro t
  have hfile : t.host.ctx.configCache =
      some (.document (.ofList [("rate", .string "fast")])) := rfl
  refine ⟨rfl, hfile, rfl, fun hgood => ?_⟩
  obtain ⟨appConfig, hdocument, ⟨config, hload⟩, -⟩ := hgood _ hfile CacheFile.noConfusion
  cases hdocument
  cases hload

end TrackedHost
end Doover
