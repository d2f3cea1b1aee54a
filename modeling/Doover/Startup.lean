import Doover.Polling
import Doover.ProcessorTags
import Doover.HubEntries

/-! # Waiting for the agent, and for channels

`connect_with_retry` tries to connect to the device agent, and after each try that fails it
pauses, for longer and longer, or gives up once its timeout has passed.  `wait_for_refs_sync`
looks every 200 ms whether the hub has synced some channels.  Both are loops of `Polling`.

An agent that is up goes on answering here, as a synced channel stays synced
(`isChannelSynced_step`); a try that is under way when the agent comes up may come off or not.
The runner may so be connected after its timeout, by such a try or by the one that follows the
last pause, and may miss an agent that came up before it, during a try that fails all the same
and takes too long (`connect_iff`).

Instants and durations are in nanoseconds.
-/

namespace Doover
open Polling

def millis (n : ℕ) : ℕ := n * 1000000

/-! ## Connecting -/

/-- What comes of the tries to connect, each by its number and the instant it is begun at. -/
structure AgentTries where
  connect : ℕ → ℕ → Except DooverError Unit
  /-- The echo that tells whether the service is answering. -/
  testComms : ℕ → ℕ → Except DooverError Unit
  took : ℕ → ℕ → ℕ
  overslept : ℕ → ℕ

namespace AgentTries

def answers (agent : AgentTries) (i begun : ℕ) : Bool :=
  match agent.connect i begun, agent.testComms i begun with
  | .ok _, .ok _ => true
  | _, _ => false

end AgentTries

/-- The pause after so many failed tries. -/
def backoff (attempt : ℕ) : ℕ := min (millis (200 * 2 ^ min attempt 5)) (millis 5000)

section Connect
variable (agent : AgentTries) (debug : ℕ → String) (timeout : Option ℕ) (start : ℕ)

/-- `connect_with_retry` after `attempt` tries; `debug` is how a duration is written. -/
def connectFrom : ℕ → ℕ → ℕ → Option (Except DooverError Unit)
  | 0, _, _ => none
  | fuel + 1, attempt, begun =>
    if agent.answers attempt begun then some (.ok ())
    else
      let now := begun + agent.took attempt begun
      let again := connectFrom fuel (attempt + 1)
        (now + backoff (attempt + 1) + agent.overslept attempt)
      match timeout with
      | some t =>
        if start + t ≤ now then
          some (.error ⟨"RuntimeError", "device agent did not become healthy within " ++ debug t⟩)
        else again
      | none => again

/-- With enough fuel for the tries it takes; without a timeout it may take no end of them. -/
def connectWithRetry (fuel : ℕ) : Option (Except DooverError Unit) :=
  connectFrom agent debug timeout start fuel 0 start

end Connect

namespace Startup

/-- The loop that connecting is. -/
def connectEnv (agent : AgentTries) : Env := ⟨agent.answers, agent.took, agent.overslept⟩

def connectPause (i : ℕ) : ℕ := backoff (i + 1)

def connectDeadline (timeout : Option ℕ) (start : ℕ) : Option ℕ := timeout.map (start + ·)

def connectResult (debug : ℕ → String) (timeout : Option ℕ) : Outcome → Except DooverError Unit
  | .done _ => .ok ()
  | .gaveUp _ => .error ⟨"RuntimeError",
      "device agent did not become healthy within " ++ (timeout.map debug).getD ""⟩

theorem connectPause_pos (i : ℕ) : 0 < connectPause i := by
  rw [connectPause, backoff, millis, millis]
  have := Nat.two_pow_pos (min (i + 1) 5)
  omega

section
variable {agent : AgentTries} {debug : ℕ → String} {timeout : Option ℕ} {start : ℕ}

theorem connectFrom_eq (fuel attempt begun : ℕ) :
    connectFrom agent debug timeout start fuel attempt begun =
      (loop (connectEnv agent) connectPause (connectDeadline timeout start) fuel attempt begun).map
        (connectResult debug timeout) := by
  induction fuel generalizing attempt begun with
  | zero => rfl
  | succ fuel ih =>
    rw [connectFrom, loop]
    show (if agent.answers attempt begun = true then _ else _) =
      Option.map _ (if agent.answers attempt begun = true then _ else _)
    split_ifs with _ hexpired
    · rfl
    · obtain ⟨d, hd, hle⟩ := expired_iff.mp hexpired
      rcases Option.map_eq_some_iff.mp hd with ⟨t, rfl, rfl⟩
      exact if_pos hle
    · cases timeout with
      | none => exact ih _ _
      | some t =>
        have hlater : ¬ start + t ≤ begun + agent.took attempt begun :=
          fun hle => hexpired (expired_iff.mpr ⟨start + t, rfl, hle⟩)
        exact (if_neg hlater).trans (ih _ _)

/-- The agent comes up at an instant, and then answers: a try begun from then on comes off, and
none that is over before does. -/
structure ComesUp (agent : AgentTries) (up : ℕ) : Prop where
  answers : ∀ i begun, up ≤ begun → agent.answers i begun = true
  silent : ∀ i begun, begun + agent.took i begun < up → agent.answers i begun = false

theorem ComesUp.steady {up : ℕ} (h : ComesUp agent up) :
    Steady (connectEnv agent) connectPause start := by
  intro i j hij hi
  rcases hij.eq_or_lt with rfl | hlt
  · exact hi
  · -- the try that came off was over after the agent was up, and the later one is begun after it
    have hend : up ≤ ends (connectEnv agent) connectPause start i := by
      by_contra hle
      have hsilent : succeeds (connectEnv agent) connectPause start i = false :=
        h.silent i _ (Nat.not_le.mp hle)
      rw [hsilent] at hi
      cases hi
    have hover : ends (connectEnv agent) connectPause start i ≤
        begins (connectEnv agent) connectPause start (i + 1) := by
      rw [begins, ends]
      omega
    exact h.answers j _ (hend.trans (hover.trans (begins_mono connectPause hlt)))

theorem ComesUp.begins_lt {up i : ℕ} (h : ComesUp agent up)
    (hi : succeeds (connectEnv agent) connectPause start i = false) :
    begins (connectEnv agent) connectPause start i < up := by
  by_contra hle
  have hok : succeeds (connectEnv agent) connectPause start i = true :=
    h.answers i _ (Nat.not_lt.mp hle)
  rw [hok] at hi
  cases hi

theorem connected_iff :
    (∃ fuel, connectWithRetry agent debug timeout start fuel = some (.ok ())) ↔
      ∃ fuel now, loop (connectEnv agent) connectPause (connectDeadline timeout start) fuel 0
        start = some (.done now) := by
  refine exists_congr fun fuel => ?_
  rw [connectWithRetry, connectFrom_eq, Option.map_eq_some_iff]
  constructor
  · rintro ⟨o, ho, hok⟩
    cases o with
    | done now => exact ⟨now, ho⟩
    | gaveUp now => cases hok
  · rintro ⟨now, hnow⟩
    exact ⟨_, hnow, rfl⟩

theorem refused_iff :
    (∃ fuel, connectWithRetry agent debug timeout start fuel =
        some (.error ⟨"RuntimeError",
          "device agent did not become healthy within " ++ (timeout.map debug).getD ""⟩)) ↔
      ∃ fuel now, loop (connectEnv agent) connectPause (connectDeadline timeout start) fuel 0
        start = some (.gaveUp now) := by
  refine exists_congr fun fuel => ?_
  rw [connectWithRetry, connectFrom_eq]
  constructor
  · intro he
    obtain ⟨o, ho, herror⟩ := Option.map_eq_some_iff.mp he
    cases o with
    | done now => cases herror
    | gaveUp now => exact ⟨now, ho⟩
  · rintro ⟨now, hnow⟩
    exact Option.map_eq_some_iff.mpr ⟨_, hnow, rfl⟩

theorem expired_connectDeadline_iff {now : ℕ} :
    expired (connectDeadline timeout start) now = true ↔
      ∃ t, timeout = some t ∧ start + t ≤ now := by
  rw [expired_iff, connectDeadline]
  constructor
  · rintro ⟨d, hd, hle⟩
    obtain ⟨t, ht, rfl⟩ := Option.map_eq_some_iff.mp hd
    exact ⟨t, ht, hle⟩
  · rintro ⟨t, rfl, hle⟩
    exact ⟨start + t, rfl, hle⟩

end

/-- An agent that comes up while the first try, of a second, is under way, which fails. -/
def slowAgent : AgentTries where
  connect _ begun := if millis 500 ≤ begun then .ok () else .error ⟨"TransportError", "refused"⟩
  testComms _ _ := .ok ()
  took _ _ := millis 1000
  overslept _ := 0

theorem comesUp_slowAgent : ComesUp slowAgent (millis 500) := by
  refine ⟨fun i begun hup => ?_, fun i begun hover => ?_⟩
  · have hconnect : slowAgent.connect i begun = .ok () := if_pos hup
    rw [AgentTries.answers, hconnect]
    rfl
  · have hlate : ¬ millis 500 ≤ begun := by omega
    have hconnect : slowAgent.connect i begun = .error _ := if_neg hlate
    rw [AgentTries.answers, hconnect]

section Hub
open SubscriptionHub
variable {w : World} {key : String}

theorem channels_stepStream (w : World) (key : String) (st : ChannelState) (t : StreamTask)
    (a : StreamAct) :
    (stepStream w key st t a).channels = w.channels ∨
      ∃ st' : ChannelState, (stepStream w key st t a).channels = w.channels.insert key st' ∧
        (st.synced = true → st'.synced = true) ∧
        st'.callbacks.length = st.callbacks.length := by
  fun_cases stepStream w key st t a
  all_goals first
    | exact Or.inl rfl
    | exact Or.inr ⟨_, rfl, fun h => h, rfl⟩
    | exact Or.inr ⟨_, rfl, fun _ => rfl, rfl⟩
    | exact Or.inr ⟨_, rfl, fun h => h, by simp only [length_dispatch]⟩

/-- An entry with callbacks, and synced. -/
def Ready (st : ChannelState) : Prop := st.callbacks.length ≠ 0 ∧ st.synced = true

theorem isChannelSynced_iff {ch : ChannelRef} :
    w.isChannelSynced ch = true ↔ ∃ st, w.channels.get? ch.cacheKey = some st ∧ Ready st := by
  rw [World.isChannelSynced, Option.any_eq_true]
  refine exists_congr fun st => and_congr_right fun _ => ?_
  rw [Ready, Bool.and_eq_true, Bool.not_eq_true', List.isEmpty_eq_false_iff, ne_eq, ne_eq,
    List.length_eq_zero_iff]

/-- An entry that is put in another's place and is ready if that was. -/
theorem isChannelSynced_insert {w' : World} {ch : ChannelRef} {st' : ChannelState}
    (h : w.isChannelSynced ch = true) (hinsert : w'.channels = w.channels.insert key st')
    (hready : ∀ st, w.channels.get? key = some st → Ready st → Ready st') :
    w'.isChannelSynced ch = true := by
  obtain ⟨st, hst, hst_ready⟩ := isChannelSynced_iff.mp h
  refine isChannelSynced_iff.mpr ?_
  rw [hinsert]
  by_cases hkey : ch.cacheKey = key
  · refine ⟨st', ?_, hready st (hkey ▸ hst) hst_ready⟩
    rw [hkey, IndexMap.get?_insert_self]
  · exact ⟨st, (IndexMap.get?_insert_of_ne st' hkey).trans hst, hst_ready⟩

theorem isChannelSynced_enqueue {ch target : ChannelRef} {ev : Event}
    (h : w.isChannelSynced ch = true) : (w.enqueue target ev).isChannelSynced ch = true := by
  rw [World.enqueue]
  cases htarget : w.channels.get? target.cacheKey with
  | none => exact h
  | some st =>
    refine isChannelSynced_insert h rfl fun st₀ hst₀ hready => ?_
    cases htarget.symm.trans hst₀
    exact hready

theorem isChannelSynced_step {ch : ChannelRef} (h : w.isChannelSynced ch = true) (a : Act) :
    (step w a).isChannelSynced ch = true := by
  cases a with
  | subscribe target events =>
    refine isChannelSynced_insert h rfl fun st hst hready => ?_
    rw [hst]
    refine ⟨?_, hready.2⟩
    show (st.callbacks ++ _).length ≠ 0
    have hpos := hready.1
    rw [List.length_append]
    omega
  | write target data =>
    have h' : ({ w with agent := w.agent.insert target data } : World).isChannelSynced ch = true := h
    exact isChannelSynced_enqueue h'
  | emit target ev =>
    rw [step]
    split_ifs
    · exact h
    · exact isChannelSynced_enqueue h
  | task key a =>
    rw [step]
    cases hst : w.channels.get? key with
    | none => exact h
    | some st =>
      cases htask : st.task with
      | none => simp only [htask, h]
      | some t =>
        simp only [htask]
        rcases channels_stepStream w key st t a with
          hsame | ⟨st', hinsert, hsynced, hlength⟩
        · rw [World.isChannelSynced, hsame]
          exact h
        · refine isChannelSynced_insert h hinsert fun st₀ hst₀ hready => ?_
          cases hst.symm.trans hst₀
          exact ⟨hlength ▸ hready.1, hsynced hready.2⟩

end Hub
end Startup

/-! ## Waiting for channels -/

section Wait
open SubscriptionHub StepRuns

/-- A hub, what it does at each instant, and the polls, by their numbers. -/
structure HubView where
  hub : World
  acts : ℕ → List Act
  /-- How long after its begin a poll looks at the channel of a place in the list, which is
  no later than its end. -/
  delay : ℕ → ℕ → ℕ
  took : ℕ → ℕ → ℕ
  overslept : ℕ → ℕ

namespace HubView

/-- The hub at an instant. -/
def world (view : HubView) : ℕ → World
  | 0 => view.hub
  | now + 1 => exec step (view.world now) (view.acts now)

/-- When a poll looks at the channel of a place in the list. -/
def look (view : HubView) (i begun n : ℕ) : ℕ := begun + min (view.delay i n) (view.took i begun)

end HubView

variable (view : HubView) (channels : List ChannelRef) (timeout start : ℕ)

/-- Every channel is synced when the poll looks at it. -/
def HubView.allSynced (i begun : ℕ) : Bool :=
  channels.zipIdx.all fun (ch, n) => (view.world (view.look i begun n)).isChannelSynced ch

/-- `wait_for_refs_sync` from a poll on, with the instant at which it returns. -/
def waitFrom : ℕ → ℕ → ℕ → Option (Bool × ℕ)
  | 0, _, _ => none
  | fuel + 1, i, begun =>
    let now := begun + view.took i begun
    if view.allSynced channels i begun then some (true, now)
    else if start + timeout ≤ now then some (false, now)
    else waitFrom fuel (i + 1) (now + millis 200 + view.overslept i)

def waitForRefsSync (fuel : ℕ) : Option (Bool × ℕ) := waitFrom view channels timeout start fuel 0 start

end Wait

namespace Startup
open SubscriptionHub StepRuns

def waitEnv (view : HubView) (channels : List ChannelRef) : Env :=
  ⟨view.allSynced channels, view.took, view.overslept⟩

def waitPause (_ : ℕ) : ℕ := millis 200

theorem waitPause_pos (i : ℕ) : 0 < waitPause i := by
  show 0 < 200 * 1000000
  omega

def waitResult : Outcome → Bool × ℕ
  | .done now => (true, now)
  | .gaveUp now => (false, now)

section
variable {view : HubView} {channels : List ChannelRef} {timeout start : ℕ}

theorem waitFrom_eq (fuel i begun : ℕ) :
    waitFrom view channels timeout start fuel i begun =
      (loop (waitEnv view channels) waitPause (some (start + timeout)) fuel i begun).map
        waitResult := by
  induction fuel generalizing i begun with
  | zero => rfl
  | succ fuel ih =>
    rw [waitFrom, loop]
    show (if view.allSynced channels i begun = true then _ else _) =
      Option.map _ (if view.allSynced channels i begun = true then _ else _)
    split_ifs with _ hlate hexpired hexpired
    · rfl
    · rfl
    · exact absurd (expired_iff.mpr ⟨_, rfl, hlate⟩) hexpired
    · obtain ⟨d, hd, hle⟩ := expired_iff.mp hexpired
      cases hd
      exact absurd hle hlate
    · exact ih _ _

theorem le_look (i begun n : ℕ) : begun ≤ view.look i begun n := Nat.le_add_right ..

theorem look_le (i begun n : ℕ) : view.look i begun n ≤ begun + view.took i begun :=
  Nat.add_le_add_left (Nat.min_le_right ..) begun

theorem isChannelSynced_mono {ch : ChannelRef} {now later : ℕ} (hle : now ≤ later)
    (h : (view.world now).isChannelSynced ch = true) :
    (view.world later).isChannelSynced ch = true := by
  induction later, hle using Nat.le_induction with
  | base => exact h
  | succ later _ ih =>
    rw [HubView.world]
    exact exec_invariant step (I := fun w => w.isChannelSynced ch = true) ih
      fun _ h a _ => isChannelSynced_step h a

theorem allSynced_iff {i begun : ℕ} :
    view.allSynced channels i begun = true ↔ ∀ n (h : n < channels.length),
      (view.world (view.look i begun n)).isChannelSynced channels[n] = true := by
  rw [HubView.allSynced, List.all_eq_true]
  constructor
  · intro h n hn
    exact h (channels[n], n) (List.mk_mem_zipIdx_iff_getElem?.mpr (List.getElem?_eq_getElem hn))
  · rintro h ⟨ch, n⟩ hmem
    obtain ⟨hn, rfl⟩ := List.getElem?_eq_some_iff.mp (List.mk_mem_zipIdx_iff_getElem?.mp hmem)
    exact h n hn

theorem steady_wait : Steady (waitEnv view channels) waitPause start := by
  intro i j hij hi
  rcases hij.eq_or_lt with rfl | hlt
  · exact hi
  · refine allSynced_iff.mpr fun n hn => isChannelSynced_mono ?_ (allSynced_iff.mp hi n hn)
    -- the poll `i` is over when `j` is begun
    have hover : ends (waitEnv view channels) waitPause start i ≤
        begins (waitEnv view channels) waitPause start (i + 1) := by
      rw [begins, ends]
      omega
    exact (look_le i _ n).trans
      (hover.trans ((begins_mono waitPause hlt).trans (le_look j _ n)))

theorem waitForRefsSync_iff {synced : Bool} :
    (∃ fuel now, waitForRefsSync view channels timeout start fuel = some (synced, now)) ↔
      ∃ fuel o, loop (waitEnv view channels) waitPause (some (start + timeout)) fuel 0 start =
        some o ∧ (waitResult o).1 = synced := by
  refine exists_congr fun fuel => ?_
  rw [waitForRefsSync, waitFrom_eq]
  constructor
  · rintro ⟨now, h⟩
    obtain ⟨o, ho, hresult⟩ := Option.map_eq_some_iff.mp h
    exact ⟨o, ho, congrArg Prod.fst hresult⟩
  · rintro ⟨o, ho, rfl⟩
    exact ⟨_, Option.map_eq_some_iff.mpr ⟨o, ho, rfl⟩⟩

/-- When it returns `true` the channels are synced. -/
theorem synced_of_wait {fuel now : ℕ} {ch : ChannelRef}
    (h : waitForRefsSync view channels timeout start fuel = some (true, now))
    (hmem : ch ∈ channels) : (view.world now).isChannelSynced ch = true := by
  rw [waitForRefsSync, waitFrom_eq] at h
  obtain ⟨o, ho, hresult⟩ := Option.map_eq_some_iff.mp h
  obtain ⟨i, -, hends⟩ := exists_loop_iff.mp ⟨fuel, ho⟩
  cases o with
  | gaveUp at' => cases hresult
  | done at' =>
    cases hresult
    obtain ⟨hsucceeds, rfl⟩ := hends
    obtain ⟨n, hn, rfl⟩ := List.mem_iff_getElem.mp hmem
    exact isChannelSynced_mono (look_le i _ n) (allSynced_iff.mp hsucceeds n hn)

end

def levels : ChannelRef := ⟨"levels", none⟩

/-- The channel's task runs after 100 ms. -/
def levelsActs (now : ℕ) : List Act :=
  if now = millis 100 then
    [.task "levels" .start, .task "levels" (.fetched true), .task "levels" .cache]
  else []

/-- The hub has subscribed. -/
def levelsView : HubView where
  hub := step (init (.ofList [(levels, .object .empty)])) (.subscribe levels .AGGREGATE_UPDATE)
  acts := levelsActs
  delay _ _ := 0
  took _ _ := 0
  overslept _ := 0

theorem world_levelsView {now : ℕ} (h : now ≤ millis 100) :
    levelsView.world now = levelsView.hub := by
  induction now with
  | zero => rfl
  | succ now ih =>
    have hacts : levelsView.acts now = [] := if_neg (by omega)
    rw [HubView.world, hacts, ih (by omega)]
    rfl

end Startup
end Doover
