import Doover.HubEntries

/-! # Synced, and what is there then

The flag of an own channel goes up once, when the seeding is over, whatever came of it,
and stays.  What should be there with it, a cache and an event for every callback that
waits for one, is there from then on if the seeding brought data (`Seeded`): the cache
is filled under the same lock, and the event is dispatched right after it.  Between the two
the flag is up and the callbacks have seen nothing.
-/

namespace Doover
namespace SubscriptionHub
open Json StepRuns

/-- A channel of this device. -/
def own (name : String) : ChannelRef := ⟨name, none⟩

/-- A callback for the channel's first sync and its updates. -/
def Callback.Awaits (cb : Callback) : Prop :=
  cb.events.contains .CHANNEL_SYNC = true ∧ cb.events.contains .AGGREGATE_UPDATE = true

/-- It was called with an aggregate event. -/
def Callback.Seen (cb : Callback) : Prop :=
  ∃ ev ∈ cb.delivered, (ev.isChannelSync || ev.isAggregateUpdate) = true

/-- Every awaiting callback that was there before the task has seen something. -/
def Delivered (callbacks : List Callback) : Prop :=
  ∀ cb ∈ callbacks, cb.early = true → cb.Awaits → cb.Seen

/-- No awaiting callback was there before the task. -/
def NoneAwaits (callbacks : List Callback) : Prop :=
  ∀ cb ∈ callbacks, cb.early = true → ¬ cb.Awaits

def StreamPhase.isSyncing : StreamPhase → Bool
  | .syncing _ => true
  | _ => false

/-- While the channel is synced there is a cache, and the callbacks have been called.
Unless `always`, they may still be waiting for the dispatch that follows the flag. -/
def Ready (always : Bool) (ch : ChannelRef) (w : World) : Prop :=
  ∀ st phase, w.channels.get? ch.cacheKey = some st → st.task = some ⟨ch, phase⟩ →
    w.isChannelSynced ch = true →
      (∃ v, w.cachedAggregate ch = some v) ∧
        (always = true ∨ phase.isSyncing = false → Delivered st.callbacks)

/-- Where an input ends the seeding of the channel, it has brought data; with `always`, to
no callback that awaits it. -/
def Seeded (always : Bool) (ch : ChannelRef) (w : World) : Input → Prop
  | .act (.task key .cache) => ∀ st data, key = ch.cacheKey →
      w.channels.get? key = some st → st.task = some ⟨ch, .seeded data⟩ →
        data.isSome = true ∧ (always = true → NoneAwaits st.callbacks)
  | _ => True

/-! ## Callbacks -/

theorem delivered_dispatch {callbacks : List Callback} (h : Delivered callbacks) (ev : Event) :
    Delivered (dispatch callbacks ev) := by
  rw [dispatch]
  split
  · exact h
  · intro cb hcb hearly hawaits
    obtain ⟨cb₀, hmem, rfl⟩ := List.mem_map.mp hcb
    split at hearly
    · rename_i hflag
      rw [if_pos hflag] at hawaits ⊢
      obtain ⟨ev', hev', hkind⟩ := h cb₀ hmem hearly hawaits
      exact ⟨ev', List.mem_cons_of_mem ev hev', hkind⟩
    · rename_i hflag
      rw [if_neg hflag] at hawaits ⊢
      exact h cb₀ hmem hearly hawaits

/-- The first sync reaches every callback that awaits it. -/
theorem delivered_dispatch_channelSync (callbacks : List Callback) (name : String) (data : Json) :
    Delivered (dispatch callbacks (Event.channelSync name data)) := by
  have hflag : (Event.channelSync name data).subscriptionFlag = .CHANNEL_SYNC := rfl
  intro cb hcb _ hawaits
  rw [dispatch, hflag, if_neg (by decide)] at hcb
  obtain ⟨cb₀, hmem, rfl⟩ := List.mem_map.mp hcb
  split at hawaits
  · rename_i hevents
    rw [if_pos hevents]
    exact ⟨_, List.mem_cons_self, rfl⟩
  · rename_i hevents
    exact absurd hawaits.1 hevents

/-! ## What holds where the seeding brought data -/

/-- The entry of a channel, by where its task is. -/
def Stage (always : Bool) (cache : Option Json) (st : ChannelState) : StreamPhase → Prop
  | .spawned | .fetching | .creating | .seeded _ =>
    st.synced = false ∧ cache = none ∧ ∀ cb ∈ st.callbacks, cb.delivered = []
  | .syncing v => cache = some v ∧ (always = true → NoneAwaits st.callbacks)
  | .subscribing | .streaming _ | .handling .. | .backingOff =>
    (∃ v, cache = some v) ∧ Delivered st.callbacks

/-- The entry of a channel is at its stage, and there is no cache without an entry. -/
structure Staged (always : Bool) (ch : ChannelRef) (w : World) : Prop where
  stage : ∀ st phase, w.channels.get? ch.cacheKey = some st → st.task = some ⟨ch, phase⟩ →
    Stage always (w.aggregates.get? ch.cacheKey) st phase
  absent : w.channels.get? ch.cacheKey = none → w.aggregates.get? ch.cacheKey = none

section Staged
variable {always : Bool} {ch : ChannelRef} {w : World}

theorem staged_init (agent : IndexMap ChannelRef Json) : Staged always ch (init agent) := by
  constructor
  · intro st phase h
    rw [init, IndexMap.get?_empty] at h
    cases h
  · intro _
    exact IndexMap.get?_empty _

theorem Delivered.of_noneAwaits {callbacks : List Callback} (h : NoneAwaits callbacks) :
    Delivered callbacks := fun cb hcb hearly hawaits => absurd hawaits (h cb hcb hearly)

theorem ready_of_staged (h : Staged always ch w) : Ready always ch w := by
  intro st phase hst htask hsynced
  have hstage := h.stage st phase hst htask
  rw [World.isChannelSynced, hst, Option.any_some, Bool.and_eq_true] at hsynced
  cases phase with
  | spawned => exact absurd (hstage.1.symm.trans hsynced.2) Bool.false_ne_true
  | fetching => exact absurd (hstage.1.symm.trans hsynced.2) Bool.false_ne_true
  | creating => exact absurd (hstage.1.symm.trans hsynced.2) Bool.false_ne_true
  | seeded data => exact absurd (hstage.1.symm.trans hsynced.2) Bool.false_ne_true
  | syncing v =>
    refine ⟨⟨v, hstage.1⟩, fun hcond => ?_⟩
    rcases hcond with halways | hnot
    · exact .of_noneAwaits (hstage.2 halways)
    · cases hnot
  | subscribing => exact ⟨hstage.1, fun _ => hstage.2⟩
  | streaming queue => exact ⟨hstage.1, fun _ => hstage.2⟩
  | handling ev queue => exact ⟨hstage.1, fun _ => hstage.2⟩
  | backingOff => exact ⟨hstage.1, fun _ => hstage.2⟩

theorem Staged.insert {st : ChannelState} {phase : StreamPhase}
    {aggregates : IndexMap String Json} (agent : IndexMap ChannelRef Json)
    (htask : st.task = some ⟨ch, phase⟩)
    (hstage : Stage always (aggregates.get? ch.cacheKey) st phase) :
    Staged always ch ⟨w.channels.insert ch.cacheKey st, aggregates, agent⟩ := by
  constructor
  · intro st' phase' hst' htask'
    obtain rfl : st = st' := Option.some.inj ((IndexMap.get?_insert_self ..).symm.trans hst')
    cases htask.symm.trans htask'
    exact hstage
  · intro hnone
    cases (IndexMap.get?_insert_self ..).symm.trans hnone

/-- An entry that is not the channel's says nothing. -/
theorem Staged.insert_other {st : ChannelState} {target : ChannelRef} {phase : StreamPhase}
    {aggregates : IndexMap String Json} (agent : IndexMap ChannelRef Json)
    (htask : st.task = some ⟨target, phase⟩) (hne : target ≠ ch) :
    Staged always ch ⟨w.channels.insert ch.cacheKey st, aggregates, agent⟩ := by
  constructor
  · intro st' phase' hst' htask'
    obtain rfl : st = st' := Option.some.inj ((IndexMap.get?_insert_self ..).symm.trans hst')
    cases htask.symm.trans htask'
    exact absurd rfl hne
  · intro hnone
    cases (IndexMap.get?_insert_self ..).symm.trans hnone

theorem Staged.of_same {w' : World} (h : Staged always ch w)
    (hst : w'.channels.get? ch.cacheKey = w.channels.get? ch.cacheKey)
    (hcache : w'.aggregates.get? ch.cacheKey = w.aggregates.get? ch.cacheKey) :
    Staged always ch w' := by
  constructor
  · rw [hst, hcache]
    exact h.stage
  · rw [hst, hcache]
    exact h.absent

/-- A callback registered once the task runs waits for nothing. -/
theorem Stage.append {cache : Option Json} {st : ChannelState} {phase : StreamPhase}
    (h : Stage always cache st phase) (cb : Callback) (hnew : cb.delivered = [])
    (hlate : phase ≠ .spawned → cb.early = false) :
    Stage always cache { st with callbacks := st.callbacks ++ [cb] } phase := by
  have hundelivered : (∀ cb ∈ st.callbacks, cb.delivered = []) →
      ∀ cb' ∈ st.callbacks ++ [cb], cb'.delivered = [] := by
    intro hall cb' hcb'
    rcases List.mem_append.mp hcb' with hold | hlast
    · exact hall cb' hold
    · exact List.mem_singleton.mp hlast ▸ hnew
  have hdelivered : phase ≠ .spawned → Delivered st.callbacks →
      Delivered (st.callbacks ++ [cb]) := by
    intro hne hall cb' hcb' hearly hawaits
    rcases List.mem_append.mp hcb' with hold | hnew
    · exact hall cb' hold hearly hawaits
    · obtain rfl := List.mem_singleton.mp hnew
      exact absurd ((hlate hne).symm.trans hearly) Bool.false_ne_true
  cases phase with
  | spawned => exact ⟨h.1, h.2.1, hundelivered h.2.2⟩
  | fetching => exact ⟨h.1, h.2.1, hundelivered h.2.2⟩
  | creating => exact ⟨h.1, h.2.1, hundelivered h.2.2⟩
  | seeded data => exact ⟨h.1, h.2.1, hundelivered h.2.2⟩
  | syncing v =>
    refine ⟨h.1, fun halways cb' hcb' hearly => ?_⟩
    rcases List.mem_append.mp hcb' with hold | hnew
    · exact h.2 halways cb' hold hearly
    · obtain rfl := List.mem_singleton.mp hnew
      exact absurd ((hlate (by intro hne; cases hne)).symm.trans hearly) Bool.false_ne_true
  | subscribing => exact ⟨h.1, hdelivered (by intro hne; cases hne) h.2⟩
  | streaming queue => exact ⟨h.1, hdelivered (by intro hne; cases hne) h.2⟩
  | handling ev queue => exact ⟨h.1, hdelivered (by intro hne; cases hne) h.2⟩
  | backingOff => exact ⟨h.1, hdelivered (by intro hne; cases hne) h.2⟩

theorem staged_subscribe (hw : InOrder w) (h : Staged always ch w) (ch' : ChannelRef)
    (events : EventSubscription) (hkey : ch'.cacheKey = ch.cacheKey) :
    Staged always ch (w.subscribe ch' events) := by
  rw [World.subscribe, hkey]
  cases hst : w.channels.get? ch.cacheKey with
  | none =>
    by_cases hch : ch' = ch
    · subst hch
      refine Staged.insert _ rfl ⟨rfl, h.absent hst, fun cb hcb => ?_⟩
      rw [List.mem_singleton.mp hcb]
    · exact Staged.insert_other _ rfl hch
  | some st =>
    obtain ⟨⟨target, phase, htask, -⟩, -⟩ := hw _ st hst
    have htask' : st.task.or (some ⟨ch', .spawned⟩) = some ⟨target, phase⟩ := by
      rw [htask]
      rfl
    by_cases htarget : target = ch
    · subst htarget
      refine Staged.insert _ htask' (Stage.append (h.stage st phase hst htask) _ rfl fun hne => ?_)
      rw [Option.getD_some, htask]
      cases phase with
      | spawned => exact absurd rfl hne
      | _ => rfl
    · exact Staged.insert_other _ htask' htarget

theorem staged_enqueue (hw : InOrder w) (h : Staged always ch w) (ch' : ChannelRef) (ev : Event)
    (hkey : ch'.cacheKey = ch.cacheKey) : Staged always ch (w.enqueue ch' ev) := by
  rw [World.enqueue, hkey]
  cases hst : w.channels.get? ch.cacheKey with
  | none => exact h
  | some st =>
    obtain ⟨⟨target, phase, htask, -⟩, -⟩ := hw _ st hst
    simp only [htask, Option.map_some]
    by_cases htarget : target = ch
    · subst htarget
      have hstage := h.stage st phase hst htask
      by_cases hch : target = ch'
      · rw [if_pos hch]
        cases phase with
        | streaming queue =>
          have hstage' : Stage always _ st (.streaming (queue ++ [ev])) := hstage
          exact Staged.insert _ rfl hstage'
        | handling ev' queue =>
          have hstage' : Stage always _ st (.handling ev' (queue ++ [ev])) := hstage
          exact Staged.insert _ rfl hstage'
        | _ => exact Staged.insert _ rfl hstage
      · rw [if_neg hch]
        exact Staged.insert _ rfl hstage
    · by_cases hch : target = ch'
      · rw [if_pos hch]
        cases phase with
        | streaming queue => exact Staged.insert_other _ rfl htarget
        | handling ev' queue => exact Staged.insert_other _ rfl htarget
        | _ => exact Staged.insert_other _ rfl htarget
      · rw [if_neg hch]
        exact Staged.insert_other _ rfl htarget

/-- **One step of the channel's task.** -/
theorem staged_stepStream {st : ChannelState} {phase : StreamPhase}
    (hst : w.channels.get? ch.cacheKey = some st) (htask : st.task = some ⟨ch, phase⟩)
    (h : Staged always ch w) (a : StreamAct)
    (hseeded : Seeded always ch w (.act (.task ch.cacheKey a))) :
    Staged always ch (stepStream w ch.cacheKey st ⟨ch, phase⟩ a) := by
  have hstage := h.stage st phase hst htask
  cases phase with
  | spawned =>
    cases a with
    | start => exact Staged.insert _ rfl hstage
    | _ => exact h
  | fetching =>
    cases a with
    | fetched ok =>
      obtain ⟨phase, hphase, heq⟩ := stepStream_fetched w ch.cacheKey st ch ok
      rw [heq]
      rcases hphase with rfl | ⟨data, rfl⟩
      · exact Staged.insert _ rfl hstage
      · exact Staged.insert _ rfl hstage
    | _ => exact h
  | creating =>
    cases a with
    | created ok =>
      cases ok with
      | false => exact Staged.insert _ rfl hstage
      | true => exact Staged.insert _ rfl hstage
    | _ => exact h
  | seeded data =>
    cases a with
    | cache =>
      obtain ⟨hdata, hnone⟩ := hseeded st data rfl hst htask
      obtain ⟨v, rfl⟩ := Option.isSome_iff_exists.mp hdata
      exact Staged.insert _ rfl ⟨IndexMap.get?_insert_self .., hnone⟩
    | _ => exact h
  | syncing v =>
    cases a with
    | sync =>
      exact Staged.insert _ rfl
        ⟨⟨v, hstage.1⟩, delivered_dispatch_channelSync st.callbacks ch.name v⟩
    | _ => exact h
  | subscribing =>
    cases a with
    | subscribed ok =>
      cases ok with
      | false => exact Staged.insert _ rfl hstage
      | true => exact Staged.insert _ rfl hstage
    | _ => exact h
  | streaming queue =>
    cases a with
    | receive =>
      cases queue with
      | nil => exact h
      | cons ev queue =>
        simp only [stepStream]
        split
        · exact Staged.insert _ rfl ⟨⟨_, IndexMap.get?_insert_self ..⟩, hstage.2⟩
        · exact Staged.insert _ rfl hstage
    | ended => cases queue <;> exact Staged.insert _ rfl hstage
    | _ => cases queue <;> exact h
  | handling ev queue =>
    cases a with
    | dispatch => exact Staged.insert _ rfl ⟨hstage.1, delivered_dispatch hstage.2 ev⟩
    | _ => exact h
  | backingOff =>
    cases a with
    | retry => exact Staged.insert _ rfl hstage
    | _ => exact h

theorem staged_feed (hw : InOrder w) (h : Staged always ch w) {i : Input}
    (hseeded : Seeded always ch w i) : Staged always ch (feed w i) := by
  by_cases hkey : i.key = ch.cacheKey
  · cases i with
    | arrive ch' ev => exact staged_enqueue hw h ch' ev hkey
    | act a =>
      cases a with
      | subscribe ch' events => exact staged_subscribe hw h ch' events hkey
      | write ch' data =>
        exact staged_enqueue (w := { w with agent := w.agent.insert ch' data }) hw
          ⟨h.stage, h.absent⟩ ch' _ hkey
      | emit ch' ev =>
        rw [feed, step]
        split
        · exact h
        · exact staged_enqueue hw h ch' ev hkey
      | task key a =>
        obtain rfl : key = ch.cacheKey := hkey
        rw [feed, step]
        cases hst : w.channels.get? ch.cacheKey with
        | none => exact h
        | some st =>
          obtain ⟨⟨target, phase, htask, -⟩, -⟩ := hw _ st hst
          simp only [htask]
          by_cases htarget : target = ch
          · subst htarget
            exact staged_stepStream hst htask h a hseeded
          · -- the task under the key is another channel's
            rcases stepStream_local ch.cacheKey st ⟨target, phase⟩ a (w.agent.get? target) with
              hsame | ⟨e, ⟨⟨phase', hnew⟩, -⟩, heq⟩
            · rw [hsame w rfl]
              exact h
            · rw [heq w rfl]
              exact Staged.insert_other _ hnew htarget
  · have hframe := sameExcept_feed hw i
    exact h.of_same (hframe.channels _ fun heq => hkey heq.symm)
      (hframe.aggregates _ fun heq => hkey heq.symm)

/-- A seeding without data, or with a callback waiting, leaves the flag up on nothing. -/
theorem seeded_of_ready (hw : InOrder w) (h : Staged always ch w) {i : Input}
    (hready : Ready always ch (feed w i)) : Seeded always ch w i := by
  cases i with
  | arrive ch' ev => trivial
  | act a =>
    cases a with
    | task key a =>
      cases a with
      | cache =>
        rintro st data rfl hst htask
        obtain ⟨-, hcache, hdelivered⟩ := h.stage st _ hst htask
        have hcallbacks : (!st.callbacks.isEmpty && true) = true := by
          rw [Bool.and_true, Bool.not_eq_true', List.isEmpty_eq_false_iff]
          exact (hw _ st hst).2
        have hstep : feed w (.act (.task ch.cacheKey .cache)) =
            stepStream w ch.cacheKey st ⟨ch, .seeded data⟩ .cache := by
          rw [feed, step, hst]
          simp only [htask]
        rw [hstep] at hready
        have hflag : ∀ (st' : ChannelState) (aggregates : IndexMap String Json),
            st'.callbacks = st.callbacks → st'.synced = true →
            (World.mk (w.channels.insert ch.cacheKey st') aggregates
              w.agent).isChannelSynced ch = true := by
          intro st' aggregates hcb hsynced
          rw [World.isChannelSynced, IndexMap.get?_insert_self, Option.any_some, hcb, hsynced]
          exact hcallbacks
        cases data with
        | none =>
          obtain ⟨⟨v, hv⟩, -⟩ := hready _ .subscribing (IndexMap.get?_insert_self ..) rfl
            (hflag _ _ rfl rfl)
          cases hcache.symm.trans hv
        | some v =>
          obtain ⟨-, hseen⟩ := hready _ (.syncing v) (IndexMap.get?_insert_self ..) rfl
            (hflag _ _ rfl rfl)
          refine ⟨rfl, fun halways cb hcb hearly hawaits => ?_⟩
          obtain ⟨ev, hev, -⟩ := hseen (.inl halways) cb hcb hearly hawaits
          rw [hdelivered cb hcb] at hev
          cases hev
      | _ => trivial
    | _ => trivial

end Staged

/-! ## The run -/

theorem staged_exec {always : Bool} {ch : ChannelRef} {agent : IndexMap ChannelRef Json}
    {is : List Input}
    (h : ∀ pre i, pre ++ [i] <+: is → Seeded always ch (exec feed (init agent) pre) i) :
    ∀ pre, pre <+: is → Staged always ch (exec feed (init agent) pre) := by
  refine prefix_induction (staged_init agent) fun pre i hpre hstaged => ?_
  rw [exec_concat]
  exact staged_feed (inOrder_exec agent pre) hstaged (h pre i hpre)

theorem ready_iff_seeded (always : Bool) (ch : ChannelRef) (agent : IndexMap ChannelRef Json)
    (is : List Input) :
    (∀ pre, pre <+: is → Ready always ch (exec feed (init agent) pre)) ↔
      ∀ pre i, pre ++ [i] <+: is → Seeded always ch (exec feed (init agent) pre) i := by
  constructor
  · intro hready
    -- up to its first bad seeding the run is staged, so there is none
    have hstaged : ∀ pre, pre <+: is → Staged always ch (exec feed (init agent) pre) := by
      refine prefix_induction (staged_init agent) fun pre i hpre hstaged => ?_
      have hnext := hready _ hpre
      rw [exec_concat] at hnext ⊢
      exact staged_feed (inOrder_exec agent pre) hstaged
        (seeded_of_ready (inOrder_exec agent pre) hstaged hnext)
    intro pre i hpre
    have hnext := hready _ hpre
    rw [exec_concat] at hnext
    exact seeded_of_ready (inOrder_exec agent pre)
      (hstaged pre ((List.prefix_append pre [i]).trans hpre)) hnext
  · intro hseeded pre hpre
    exact ready_of_staged (staged_exec hseeded pre hpre)

/-- **A synced own channel.**  In every state of a run its flag means a cache and called
callbacks, exactly when every seeding brings data, to no callback that awaits it; and it
means so but for the moment before the first dispatch, exactly when every seeding brings
data. -/
theorem synced_own_channel_iff (name : String) (agent : IndexMap ChannelRef Json)
    (is : List Input) :
    ((∀ pre, pre <+: is → Ready true (own name) (exec feed (init agent) pre)) ↔
      ∀ pre i, pre ++ [i] <+: is → Seeded true (own name) (exec feed (init agent) pre) i) ∧
    ((∀ pre, pre <+: is → Ready false (own name) (exec feed (init agent) pre)) ↔
      ∀ pre i, pre ++ [i] <+: is → Seeded false (own name) (exec feed (init agent) pre) i) :=
  ⟨ready_iff_seeded true (own name) agent is, ready_iff_seeded false (own name) agent is⟩

/-- The fetch fails, and the task goes on. -/
def failedSeeding : List Input :=
  [.act (.subscribe (own "tag_values") (.bitor .AGGREGATE_UPDATE .CHANNEL_SYNC)),
    .act (.task "tag_values" .start), .act (.task "tag_values" (.fetched false)),
    .act (.task "tag_values" .cache)]

/-- The channel is synced, with no cache and a callback that was never called. -/
theorem failed_seeding_synced :
    (exec feed (init .empty) failedSeeding).isChannelSynced (own "tag_values") = true ∧
      (exec feed (init .empty) failedSeeding).cachedAggregate (own "tag_values") = none ∧
      ¬ Ready false (own "tag_values") (exec feed (init .empty) failedSeeding) := by
  refine ⟨rfl, rfl, fun h => ?_⟩
  obtain ⟨⟨v, hv⟩, -⟩ := h _ .subscribing rfl rfl rfl
  cases hv

end SubscriptionHub
end Doover
