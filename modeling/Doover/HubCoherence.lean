import Doover.SubscriptionHub

/-! # The hub's copy and the agent's aggregate

While a channel's stream is open, every write is on its way to the hub: the cache,
once the queued updates are taken in, is the agent's aggregate (`Current`), and the
callbacks that were there from the start saw last what is in the cache (`Valid`).
Neither is touched by anything but a new subscription.  A stream opens empty, whatever
was written before, and nothing is fetched again; so what was cached stays, and is
right exactly when it still is the agent's aggregate at that moment (`Meets`).
-/

namespace Doover
namespace SubscriptionHub
open Json StepRuns

/-- A callback for the aggregate's updates and its first sync. -/
def Callback.Follows (cb : Callback) : Prop :=
  cb.events.contains .AGGREGATE_UPDATE = true ∧ cb.events.contains .CHANNEL_SYNC = true

/-- Wherever the channel's stream is open and nothing is undelivered, what is cached is
the agent's aggregate, and so is what a following callback saw last. -/
def Coherent (w : World) : Prop :=
  ∀ ch st, w.channels.get? ch.cacheKey = some st → st.task = some ⟨ch, .streaming []⟩ →
    (∀ v, w.cachedAggregate ch = some v → w.agent.get? ch = some v) ∧
      ∀ cb ∈ st.callbacks, cb.early = true → cb.Follows →
        (∀ v, cb.lastAggregate = some v → w.agent.get? ch = some v) ∧
          ∀ v, w.cachedAggregate ch = some v → cb.lastAggregate = some v

/-- A stream is opened only while what is cached is the agent's aggregate. -/
def Meets (w : World) : Act → Prop
  | .task key (.subscribed true) =>
    ∀ st ch, w.channels.get? key = some st → st.task = some ⟨ch, .subscribing⟩ →
      ∀ v, w.aggregates.get? key = some v → w.agent.get? ch = some v
  | _ => True

/-! ## Callbacks -/

/-- What the agent emits: an update with its aggregate, or no aggregate event. -/
def WellFormed (ev : Event) : Prop :=
  (ev.isAggregateUpdate = true → ∃ v, ev.aggregateData = some v) ∧ ev.isChannelSync = false

theorem lastAggregate_cons (cb : Callback) (ev : Event) :
    ({ cb with delivered := ev :: cb.delivered } : Callback).lastAggregate =
      if ev.isAggregateUpdate || ev.isChannelSync then ev.aggregateData else cb.lastAggregate := by
  rw [Callback.lastAggregate, List.find?_cons]
  cases ev.isAggregateUpdate || ev.isChannelSync <;> rfl

theorem contains_flag {cb : Callback} (h : cb.Follows) {ev : Event}
    (hev : ev.isAggregateUpdate = true ∨ ev.isChannelSync = true) :
    ev.subscriptionFlag ≠ .NONE ∧ cb.events.contains ev.subscriptionFlag = true := by
  rw [Event.isAggregateUpdate, Event.isChannelSync, beq_iff_eq, beq_iff_eq] at hev
  rcases hev with hname | hname
  · have hflag : ev.subscriptionFlag = .AGGREGATE_UPDATE := by
      rw [Event.subscriptionFlag, hname]
      rfl
    rw [hflag]
    exact ⟨by decide, h.1⟩
  · have hflag : ev.subscriptionFlag = .CHANNEL_SYNC := by
      rw [Event.subscriptionFlag, hname]
      rfl
    rw [hflag]
    exact ⟨by decide, h.2⟩

/-- An aggregate event reaches the following callbacks, another one changes nothing they
last saw. -/
theorem of_mem_dispatch {callbacks : List Callback} {ev : Event} {cb : Callback}
    (h : cb ∈ dispatch callbacks ev) :
    ∃ cb₀ ∈ callbacks, cb.early = cb₀.early ∧ (cb.Follows → cb₀.Follows) ∧
      (cb.Follows → ev.isAggregateUpdate = true ∨ ev.isChannelSync = true →
        cb.lastAggregate = ev.aggregateData) ∧
      ((ev.isAggregateUpdate || ev.isChannelSync) = false →
        cb.lastAggregate = cb₀.lastAggregate) := by
  rw [dispatch] at h
  by_cases hnone : ev.subscriptionFlag = .NONE
  · rw [if_pos hnone] at h
    refine ⟨cb, h, rfl, fun hf => hf, fun hf hev => ?_, fun _ => rfl⟩
    exact absurd hnone (contains_flag hf hev).1
  · rw [if_neg hnone] at h
    obtain ⟨cb₀, hmem, rfl⟩ := List.mem_map.mp h
    by_cases hflag : cb₀.events.contains ev.subscriptionFlag = true
    · rw [if_pos hflag]
      refine ⟨cb₀, hmem, rfl, fun hf => hf, fun _ hev => ?_, fun hev => ?_⟩
      · rw [lastAggregate_cons, if_pos (Bool.or_eq_true_iff.mpr hev)]
      · rw [lastAggregate_cons, hev]
        rfl
    · rw [if_neg hflag]
      refine ⟨cb₀, hmem, rfl, fun hf => hf, fun hf hev => ?_, fun _ => rfl⟩
      exact absurd (contains_flag hf hev).2 hflag

/-! ## What holds in every run -/

/-- The cache beside where the task is: empty up to the seeding. -/
def PhaseOk (cache : Option Json) : StreamPhase → Prop
  | .spawned | .fetching | .creating | .seeded _ => cache = none
  | .syncing v => cache = some v
  | .streaming queue => ∀ ev ∈ queue, WellFormed ev
  | .handling ev queue =>
    WellFormed ev ∧ (∀ ev ∈ queue, WellFormed ev) ∧
      (ev.isAggregateUpdate = true → ev.aggregateData = cache)
  | .subscribing | .backingOff => True

/-- What a following callback saw last is what is cached, unless it is about to see it. -/
def Shown (cache last : Option Json) : StreamPhase → Prop
  | .spawned | .fetching | .creating | .seeded _ => last = none
  | .syncing _ => True
  | .handling ev _ => ev.isAggregateUpdate = true ∨ last = cache
  | .subscribing | .streaming _ | .backingOff => last = cache

structure EntryValid (key : String) (cache : Option Json) (st : ChannelState) (t : StreamTask) :
    Prop where
  task : st.task = some t
  key : t.target.cacheKey = key
  phase : PhaseOk cache t.phase
  shown : ∀ cb ∈ st.callbacks, cb.early = true → cb.Follows → Shown cache cb.lastAggregate t.phase

/-- Every entry of the hub is in order, and there is no cache without an entry. -/
structure Valid (w : World) : Prop where
  entry : ∀ key st, w.channels.get? key = some st →
    ∃ t, EntryValid key (w.aggregates.get? key) st t
  absent : ∀ key, w.channels.get? key = none → w.aggregates.get? key = none

/-- What the cache will be once the queue is taken in. -/
def settle (cache : Option Json) (queue : List Event) : Option Json :=
  queue.foldl (fun c ev => if ev.isAggregateUpdate then ev.aggregateData else c) cache

/-- The queue of an open stream. -/
def queueOf : StreamPhase → Option (List Event)
  | .streaming queue | .handling _ queue => some queue
  | _ => none

/-- What the hub has of a channel whose stream is open, or has coming, is the agent's
aggregate. -/
def Current (w : World) : Prop :=
  ∀ key st t queue, w.channels.get? key = some st → st.task = some t →
    queueOf t.phase = some queue →
      ∀ v, settle (w.aggregates.get? key) queue = some v → w.agent.get? t.target = some v

theorem valid_init (agent : IndexMap ChannelRef Json) : Valid (init agent) := by
  constructor
  · intro key st h
    rw [init, IndexMap.get?_empty] at h
    cases h
  · intro key _
    exact IndexMap.get?_empty key

/-! ### One entry changes -/

section Entry
variable {w : World} {key : String} {cache : Option Json} {st : ChannelState} {t : StreamTask}

theorem Valid.insert {aggregates : IndexMap String Json} (h : Valid w)
    (hentry : EntryValid key (aggregates.get? key) st t)
    (hother : ∀ k, k ≠ key → aggregates.get? k = w.aggregates.get? k)
    (agent : IndexMap ChannelRef Json) : Valid ⟨w.channels.insert key st, aggregates, agent⟩ := by
  constructor
  · intro k st' hst
    by_cases hk : k = key
    · subst hk
      obtain rfl : st = st' := Option.some.inj ((IndexMap.get?_insert_self ..).symm.trans hst)
      exact ⟨t, hentry⟩
    · obtain ⟨t', ht'⟩ := h.entry k st' ((IndexMap.get?_insert_of_ne st hk).symm.trans hst)
      refine ⟨t', ?_⟩
      show EntryValid k (aggregates.get? k) st' t'
      rw [hother k hk]
      exact ht'
  · intro k hnone
    by_cases hk : k = key
    · subst hk
      cases (IndexMap.get?_insert_self ..).symm.trans hnone
    · exact (hother k hk).trans
        (h.absent k ((IndexMap.get?_insert_of_ne st hk).symm.trans hnone))

/-- The task goes on, and the callbacks are as they were. -/
theorem EntryValid.move {cache' : Option Json} {st' : ChannelState} {phase : StreamPhase}
    (h : EntryValid key cache st t) (hcallbacks : st'.callbacks = st.callbacks)
    (htask : st'.task = some ⟨t.target, phase⟩) (hphase : PhaseOk cache' phase)
    (hshown : ∀ last, Shown cache last t.phase → Shown cache' last phase) :
    EntryValid key cache' st' ⟨t.target, phase⟩ where
  task := htask
  key := h.key
  phase := hphase
  shown cb hcb hearly hfollows := hshown _ (h.shown cb (hcallbacks ▸ hcb) hearly hfollows)

/-- The task dispatches an event. -/
theorem EntryValid.dispatch {ev : Event} (h : EntryValid key cache st t) (phase : StreamPhase)
    (hphase : PhaseOk cache phase)
    (hseen : ev.isAggregateUpdate = true ∨ ev.isChannelSync = true →
      Shown cache ev.aggregateData phase)
    (hunseen : (ev.isAggregateUpdate || ev.isChannelSync) = false →
      ∀ last, Shown cache last t.phase → Shown cache last phase) :
    EntryValid key cache
      { st with callbacks := dispatch st.callbacks ev, task := some { t with phase } }
      ⟨t.target, phase⟩ where
  task := rfl
  key := h.key
  phase := hphase
  shown cb hcb hearly hfollows := by
    obtain ⟨cb₀, hcb₀, heq, hfollows₀, hlast, hsame⟩ := of_mem_dispatch hcb
    by_cases hev : (ev.isAggregateUpdate || ev.isChannelSync) = true
    · rw [hlast hfollows (Bool.or_eq_true_iff.mp hev)]
      exact hseen (Bool.or_eq_true_iff.mp hev)
    · rw [Bool.not_eq_true] at hev
      rw [hsame hev]
      exact hunseen hev _ (h.shown cb₀ hcb₀ (heq ▸ hearly) (hfollows₀ hfollows))

end Entry

/-! ### The steps -/

section Step
variable {w : World} {key : String} {st : ChannelState} {t : StreamTask}

theorem valid_goTo (h : Valid w) (hentry : EntryValid key (w.aggregates.get? key) st t)
    {phase : StreamPhase} (hphase : PhaseOk (w.aggregates.get? key) phase)
    (hshown : ∀ last, Shown (w.aggregates.get? key) last t.phase →
      Shown (w.aggregates.get? key) last phase) : Valid (goTo w key st t phase) := by
  refine h.insert (t := ⟨t.target, phase⟩) ?_ (fun _ _ => rfl) _
  exact hentry.move rfl rfl hphase hshown

/-- The first cache is what the fetch came back with, and the callbacks that follow are about
to see it. -/
theorem valid_seed {target : ChannelRef} {data : Option Json} (h : Valid w)
    (hentry : EntryValid key (w.aggregates.get? key) st ⟨target, .seeded data⟩) :
    Valid (stepStream w key st ⟨target, .seeded data⟩ .cache) := by
  have hcache : w.aggregates.get? key = none := hentry.phase
  cases data with
  | none =>
    refine h.insert (t := ⟨target, .subscribing⟩) ?_ (fun _ _ => rfl) _
    refine hentry.move rfl rfl trivial fun last hl => ?_
    show last = w.aggregates.get? key
    rw [hcache]
    exact hl
  | some v =>
    refine h.insert (t := ⟨target, .syncing v⟩) ?_
      (fun k hk => IndexMap.get?_insert_of_ne v hk) _
    exact hentry.move rfl rfl (IndexMap.get?_insert_self ..) fun _ _ => trivial

/-- An update is cached before it is handed on, another event leaves the cache alone. -/
theorem valid_receive {target : ChannelRef} {ev : Event} {queue : List Event} (h : Valid w)
    (hentry : EntryValid key (w.aggregates.get? key) st ⟨target, .streaming (ev :: queue)⟩) :
    Valid (stepStream w key st ⟨target, .streaming (ev :: queue)⟩ .receive) := by
  have hev : WellFormed ev := hentry.phase ev List.mem_cons_self
  have hqueue : ∀ ev' ∈ queue, WellFormed ev' :=
    fun ev' hmem => hentry.phase ev' (List.mem_cons_of_mem ev hmem)
  by_cases hup : ev.isAggregateUpdate = true
  · obtain ⟨v, hv⟩ := hev.1 hup
    simp only [stepStream, if_pos hup, hv]
    refine h.insert (t := ⟨target, .handling ev queue⟩) ?_
      (fun k hk => IndexMap.get?_insert_of_ne v hk) _
    refine hentry.move rfl rfl ⟨hev, hqueue, fun _ => ?_⟩ fun _ _ => .inl hup
    rw [hv, IndexMap.get?_insert_self]
  · simp only [stepStream, if_neg hup]
    exact valid_goTo h hentry ⟨hev, hqueue, fun hup' => absurd hup' hup⟩ fun _ hl => .inr hl

/-- Once the update is handed on, a following callback has seen what is cached. -/
theorem valid_handle {target : ChannelRef} {ev : Event} {queue : List Event} (h : Valid w)
    (hentry : EntryValid key (w.aggregates.get? key) st ⟨target, .handling ev queue⟩) :
    Valid (stepStream w key st ⟨target, .handling ev queue⟩ .dispatch) := by
  obtain ⟨hev, hqueue, hcache⟩ := hentry.phase
  refine h.insert (hentry.dispatch (.streaming queue) hqueue ?_ ?_) (fun _ _ => rfl) _
  · rintro (hup | hsync)
    · exact hcache hup
    · exact absurd (hev.2.symm.trans hsync) Bool.false_ne_true
  · intro hnone last hl
    rcases hl with hup | hl
    · rw [hup] at hnone
      cases hnone
    · exact hl

theorem valid_stepStream (h : Valid w) (hentry : EntryValid key (w.aggregates.get? key) st t)
    (a : StreamAct) : Valid (stepStream w key st t a) := by
  obtain ⟨target, phase⟩ := t
  have hphase := hentry.phase
  cases phase with
  | spawned =>
    cases a with
    | start => exact valid_goTo h hentry hphase fun _ hl => hl
    | _ => exact h
  | fetching =>
    cases a with
    | fetched ok =>
      obtain ⟨phase, hfetched, hstep⟩ := stepStream_fetched w key st target ok
      rw [hstep]
      rcases hfetched with rfl | ⟨data, rfl⟩
      · exact valid_goTo h hentry hphase fun _ hl => hl
      · exact valid_goTo h hentry hphase fun _ hl => hl
    | _ => exact h
  | creating =>
    cases a with
    | created ok =>
      cases ok with
      | false => exact valid_goTo h hentry hphase fun _ hl => hl
      | true =>
        refine h.insert (t := ⟨target, .seeded (some (.object .empty))⟩) ?_ (fun _ _ => rfl) _
        exact hentry.move rfl rfl hphase fun _ hl => hl
    | _ => exact h
  | seeded data =>
    cases a with
    | cache => exact valid_seed h hentry
    | _ => exact h
  | syncing data =>
    cases a with
    | sync =>
      have hcache : w.aggregates.get? key = some data := hphase
      refine h.insert (hentry.dispatch .subscribing trivial ?_ ?_) (fun _ _ => rfl) _
      · intro _
        exact hcache.symm
      · intro hev
        cases hev
    | _ => exact h
  | subscribing =>
    cases a with
    | subscribed ok =>
      cases ok with
      | false => exact valid_goTo h hentry trivial fun _ hl => hl
      | true => exact valid_goTo h hentry (fun _ hev => nomatch hev) fun _ hl => hl
    | _ => exact h
  | streaming queue =>
    cases a with
    | receive =>
      cases queue with
      | nil => exact h
      | cons ev queue => exact valid_receive h hentry
    | ended =>
      have hended : Valid (goTo w key st ⟨target, .streaming queue⟩ .backingOff) :=
        valid_goTo h hentry trivial fun _ hl => hl
      cases queue <;> exact hended
    | _ => cases queue <;> exact h
  | handling ev queue =>
    cases a with
    | dispatch => exact valid_handle h hentry
    | _ => exact h
  | backingOff =>
    cases a with
    | retry => exact valid_goTo h hentry trivial fun _ hl => hl
    | _ => exact h

theorem valid_subscribe (h : Valid w) (ch : ChannelRef) (events : EventSubscription) :
    Valid (w.subscribe ch events) := by
  cases hst : w.channels.get? ch.cacheKey with
  | none =>
    have hcache : w.aggregates.get? ch.cacheKey = none := h.absent _ hst
    refine h.insert (t := ⟨ch, .spawned⟩) ?_ (fun _ _ => rfl) _
    rw [hst]
    refine ⟨rfl, rfl, hcache, fun cb hcb _ _ => ?_⟩
    obtain rfl : cb = ⟨events, true, []⟩ := List.mem_singleton.mp hcb
    exact rfl
  | some st =>
    obtain ⟨t, hentry⟩ := h.entry _ st hst
    refine h.insert (t := t) ?_ (fun _ _ => rfl) _
    rw [hst]
    refine ⟨?_, hentry.key, hentry.phase, fun cb hcb hearly hfollows => ?_⟩
    · show st.task.or _ = some t
      rw [hentry.task]
      rfl
    · rcases List.mem_append.mp hcb with hold | hnew
      · exact hentry.shown cb hold hearly hfollows
      · -- the task has not started, and nothing was dispatched yet
        obtain rfl := List.mem_singleton.mp hnew
        obtain ⟨target, phase⟩ := t
        cases phase with
        | spawned => exact rfl
        | _ =>
          rw [Option.getD_some, hentry.task] at hearly
          cases hearly

theorem valid_enqueue (h : Valid w) (ch : ChannelRef) {ev : Event} (hev : WellFormed ev) :
    Valid (w.enqueue ch ev) := by
  rw [World.enqueue]
  cases hst : w.channels.get? ch.cacheKey with
  | none => exact h
  | some st =>
    obtain ⟨⟨target, phase⟩, hentry⟩ := h.entry _ st hst
    have hqueue : ∀ queue : List Event, (∀ e ∈ queue, WellFormed e) →
        ∀ e ∈ queue ++ [ev], WellFormed e := by
      intro queue hold e he
      rcases List.mem_append.mp he with he | he
      · exact hold e he
      · exact List.mem_singleton.mp he ▸ hev
    have hphase := hentry.phase
    have hsame : Valid (goTo w ch.cacheKey st ⟨target, phase⟩ phase) :=
      valid_goTo h hentry hphase fun _ hl => hl
    simp only [hentry.task, Option.map_some]
    by_cases htarget : target = ch
    · rw [if_pos htarget]
      cases phase with
      | streaming queue =>
        refine h.insert (t := ⟨target, .streaming (queue ++ [ev])⟩) ?_ (fun _ _ => rfl) _
        exact hentry.move rfl rfl (hqueue queue hphase) fun _ hl => hl
      | handling ev' queue =>
        refine h.insert (t := ⟨target, .handling ev' (queue ++ [ev])⟩) ?_ (fun _ _ => rfl) _
        exact hentry.move rfl rfl ⟨hphase.1, hqueue queue hphase.2.1, hphase.2.2⟩ fun _ hl => hl
      | _ => exact hsame
    · rw [if_neg htarget]
      exact hsame

theorem wellFormed_aggregateUpdate (ch : ChannelRef) (data : Json) :
    WellFormed (aggregateUpdate ch data) := ⟨fun _ => ⟨data, rfl⟩, rfl⟩

theorem wellFormed_of_not_aggregate {ev : Event}
    (h : (ev.isAggregateUpdate || ev.isChannelSync) = false) : WellFormed ev := by
  rw [Bool.or_eq_false_iff] at h
  exact ⟨fun hup => absurd (h.1.symm.trans hup) Bool.false_ne_true, h.2⟩

/-- Every run keeps the entries in order. -/
theorem valid_step (h : Valid w) (a : Act) : Valid (step w a) := by
  cases a with
  | subscribe ch events => exact valid_subscribe h ch events
  | write ch data =>
    have hagent : Valid { w with agent := w.agent.insert ch data } := ⟨h.entry, h.absent⟩
    exact valid_enqueue hagent ch (wellFormed_aggregateUpdate ch data)
  | emit ch ev =>
    rw [step]
    by_cases hev : (ev.isAggregateUpdate || ev.isChannelSync) = true
    · rw [if_pos hev]
      exact h
    · rw [if_neg hev]
      rw [Bool.not_eq_true] at hev
      exact valid_enqueue h ch (wellFormed_of_not_aggregate hev)
  | task key a =>
    rw [step]
    split
    · rename_i st hst
      obtain ⟨t, hentry⟩ := h.entry key st hst
      rw [hentry.task]
      exact valid_stepStream h hentry a
    · exact h

/-! ### The queue -/

theorem settle_append (cache : Option Json) (queue : List Event) (ev : Event) :
    settle cache (queue ++ [ev]) =
      if ev.isAggregateUpdate then ev.aggregateData else settle cache queue := by
  rw [settle, List.foldl_append]
  rfl

theorem Current.insert {aggregates : IndexMap String Json} {agent : IndexMap ChannelRef Json}
    (h : Current w) (hv : Valid w) (hother : ∀ k, k ≠ key → aggregates.get? k = w.aggregates.get? k)
    (hagent : ∀ ch : ChannelRef, ch.cacheKey ≠ key → agent.get? ch = w.agent.get? ch)
    (hkey : ∀ t queue, st.task = some t → queueOf t.phase = some queue →
      ∀ v, settle (aggregates.get? key) queue = some v → agent.get? t.target = some v) :
    Current ⟨w.channels.insert key st, aggregates, agent⟩ := by
  intro k st' t queue hst htask hqueue v hsettle
  by_cases hk : k = key
  · subst hk
    obtain rfl : st = st' := Option.some.inj ((IndexMap.get?_insert_self ..).symm.trans hst)
    exact hkey t queue htask hqueue v hsettle
  · have hst' : w.channels.get? k = some st' := (IndexMap.get?_insert_of_ne st hk).symm.trans hst
    obtain ⟨t', hentry⟩ := hv.entry k st' hst'
    obtain rfl : t' = t := Option.some.inj (hentry.task.symm.trans htask)
    show agent.get? t'.target = some v
    rw [hagent t'.target (hentry.key ▸ hk)]
    rw [show aggregates.get? k = w.aggregates.get? k from hother k hk] at hsettle
    exact h k st' t' queue hst' htask hqueue v hsettle

/-- A task that is not at an open stream owes nothing. -/
theorem Current.insert_closed {aggregates : IndexMap String Json}
    {agent : IndexMap ChannelRef Json} (h : Current w) (hv : Valid w)
    (hother : ∀ k, k ≠ key → aggregates.get? k = w.aggregates.get? k)
    (hagent : ∀ ch : ChannelRef, ch.cacheKey ≠ key → agent.get? ch = w.agent.get? ch)
    (htask : ∀ t, st.task = some t → queueOf t.phase = none) :
    Current ⟨w.channels.insert key st, aggregates, agent⟩ :=
  h.insert hv hother hagent fun t _ ht hqueue => nomatch (htask t ht).symm.trans hqueue

theorem current_goTo (h : Current w) (hv : Valid w) {phase : StreamPhase}
    (hphase : queueOf phase = none) : Current (goTo w key st t phase) :=
  h.insert_closed hv (fun _ _ => rfl) (fun _ _ => rfl) fun t' ht' => by
    cases ht'
    exact hphase

/-- Taking an event in moves it from the queue to the cache. -/
theorem current_receive {target : ChannelRef} {ev : Event} {queue : List Event} (h : Current w)
    (hv : Valid w) (hst : w.channels.get? key = some st)
    (hentry : EntryValid key (w.aggregates.get? key) st ⟨target, .streaming (ev :: queue)⟩) :
    Current (stepStream w key st ⟨target, .streaming (ev :: queue)⟩ .receive) := by
  have hsettles := h key st _ (ev :: queue) hst hentry.task rfl
  by_cases hup : ev.isAggregateUpdate = true
  · obtain ⟨v, hv'⟩ := (hentry.phase ev List.mem_cons_self).1 hup
    simp only [stepStream, if_pos hup, hv']
    refine h.insert hv (fun k hk => IndexMap.get?_insert_of_ne v hk) (fun _ _ => rfl)
      fun t queue' ht hqueue v' hsettle => ?_
    cases ht
    cases hqueue
    rw [IndexMap.get?_insert_self] at hsettle
    refine hsettles v' ?_
    rw [settle, List.foldl_cons, if_pos hup, hv']
    exact hsettle
  · simp only [stepStream, if_neg hup]
    refine h.insert hv (fun _ _ => rfl) (fun _ _ => rfl) fun t queue' ht hqueue v' hsettle => ?_
    cases ht
    cases hqueue
    refine hsettles v' ?_
    rw [settle, List.foldl_cons, if_neg hup]
    exact hsettle

theorem current_stepStream (h : Current w) (hv : Valid w) (hst : w.channels.get? key = some st)
    (hentry : EntryValid key (w.aggregates.get? key) st t) {a : StreamAct}
    (hm : Meets w (.task key a)) : Current (stepStream w key st t a) := by
  obtain ⟨target, phase⟩ := t
  cases phase with
  | spawned =>
    cases a with
    | start => exact current_goTo h hv rfl
    | _ => exact h
  | fetching =>
    cases a with
    | fetched ok =>
      obtain ⟨phase, hfetched, hstep⟩ := stepStream_fetched w key st target ok
      rw [hstep]
      rcases hfetched with rfl | ⟨data, rfl⟩
      · exact current_goTo h hv rfl
      · exact current_goTo h hv rfl
    | _ => exact h
  | creating =>
    cases a with
    | created ok =>
      cases ok with
      | false => exact current_goTo h hv rfl
      | true =>
        -- the agent's side changes too, but only at this channel
        refine h.insert_closed hv (fun _ _ => rfl) (fun ch hne => ?_) ?_
        · have hch : ch ≠ target := fun heq => hne (heq ▸ hentry.key)
          split
          · exact IndexMap.get?_insert_of_ne _ hch
          · rfl
        · intro t ht
          cases ht
          rfl
    | _ => exact h
  | seeded data =>
    cases a with
    | cache =>
      cases data with
      | none =>
        refine h.insert_closed hv (fun _ _ => rfl) (fun _ _ => rfl) fun t ht => ?_
        cases ht
        rfl
      | some v =>
        refine h.insert_closed hv (fun k hk => IndexMap.get?_insert_of_ne v hk) (fun _ _ => rfl)
          fun t ht => ?_
        cases ht
        rfl
    | _ => exact h
  | syncing data =>
    cases a with
    | sync =>
      refine h.insert_closed hv (fun _ _ => rfl) (fun _ _ => rfl) fun t ht => ?_
      cases ht
      rfl
    | _ => exact h
  | subscribing =>
    cases a with
    | subscribed ok =>
      cases ok with
      | false => exact current_goTo h hv rfl
      | true =>
        refine h.insert hv (fun _ _ => rfl) (fun _ _ => rfl) fun t queue ht hqueue v hv' => ?_
        cases ht
        cases hqueue
        -- the stream opens on the cache as it is: this is where the condition is needed
        exact hm st target hst hentry.task v hv'
    | _ => exact h
  | streaming queue =>
    cases a with
    | receive =>
      cases queue with
      | nil => exact h
      | cons ev queue => exact current_receive h hv hst hentry
    | ended =>
      have hended : Current (goTo w key st ⟨target, .streaming queue⟩ .backingOff) :=
        current_goTo h hv rfl
      cases queue <;> exact hended
    | _ => cases queue <;> exact h
  | handling ev queue =>
    have hsettles := h key st _ queue hst hentry.task rfl
    cases a with
    | dispatch =>
      refine h.insert hv (fun _ _ => rfl) (fun _ _ => rfl) fun t queue' ht hqueue v hsettle => ?_
      cases ht
      cases hqueue
      exact hsettles v hsettle
    | _ => exact h
  | backingOff =>
    cases a with
    | retry => exact current_goTo h hv rfl
    | _ => exact h

theorem current_subscribe (h : Current w) (hv : Valid w) (ch : ChannelRef)
    (events : EventSubscription) : Current (w.subscribe ch events) := by
  refine h.insert hv (fun _ _ => rfl) (fun _ _ => rfl) fun t queue ht hqueue v hsettle => ?_
  cases hst : w.channels.get? ch.cacheKey with
  | none =>
    rw [hst] at ht
    cases ht
    cases hqueue
  | some st =>
    obtain ⟨t', hentry⟩ := hv.entry _ st hst
    rw [hst] at ht
    have htask : st.task = some t := by
      rw [Option.getD_some, hentry.task] at ht
      exact hentry.task.trans ht
    exact h _ st t queue hst htask hqueue v hsettle

/-- An event that the aggregate agrees with, if it is an update, goes into the queue. -/
theorem current_enqueue (hv : Valid w) (ch : ChannelRef) {ev : Event}
    {agent : IndexMap ChannelRef Json} (h : Current w)
    (hagent : ∀ ch' : ChannelRef, ch' ≠ ch → agent.get? ch' = w.agent.get? ch')
    (hup : ev.isAggregateUpdate = true → ∀ v, ev.aggregateData = some v → agent.get? ch = some v)
    (hother : ev.isAggregateUpdate = false → agent = w.agent) :
    Current ({ w with agent := agent }.enqueue ch ev) := by
  have hagent' : ∀ ch' : ChannelRef, ch'.cacheKey ≠ ch.cacheKey →
      agent.get? ch' = w.agent.get? ch' := fun ch' hne => hagent ch' fun heq => hne (heq ▸ rfl)
  have hsettle : ∀ (cache : Option Json) (queue : List Event) (v : Json),
      (∀ v, settle cache queue = some v → w.agent.get? ch = some v) →
      settle cache (queue ++ [ev]) = some v → agent.get? ch = some v := by
    intro cache queue v hold hv'
    rw [settle_append] at hv'
    by_cases hev : ev.isAggregateUpdate = true
    · rw [if_pos hev] at hv'
      exact hup hev v hv'
    · rw [if_neg hev] at hv'
      rw [Bool.not_eq_true] at hev
      rw [hother hev]
      exact hold v hv'
  rw [World.enqueue]
  cases hst : w.channels.get? ch.cacheKey with
  | none =>
    intro k st' t queue hst' htask hqueue v hv'
    obtain ⟨t', hentry⟩ := hv.entry k st' hst'
    obtain rfl : t' = t := Option.some.inj (hentry.task.symm.trans htask)
    have hne : t'.target ≠ ch := by
      rintro rfl
      rw [hentry.key] at hst
      cases hst.symm.trans hst'
    show agent.get? t'.target = some v
    rw [hagent _ hne]
    exact h k st' t' queue hst' htask hqueue v hv'
  | some st =>
    obtain ⟨⟨target, phase⟩, hentry⟩ := hv.entry _ st hst
    simp only [hentry.task, Option.map_some]
    refine h.insert hv (fun _ _ => rfl) hagent' fun t queue ht hqueue v hv' => ?_
    have hold := fun queue => h _ st _ queue hst hentry.task
    by_cases htarget : target = ch
    · subst htarget
      rw [if_pos rfl] at ht
      cases phase with
      | streaming queue₀ =>
        cases ht
        cases hqueue
        exact hsettle _ queue₀ v (hold queue₀ rfl) hv'
      | handling ev' queue₀ =>
        cases ht
        cases hqueue
        exact hsettle _ queue₀ v (hold queue₀ rfl) hv'
      | _ =>
        cases ht
        cases hqueue
    · rw [if_neg htarget] at ht
      cases ht
      show agent.get? target = some v
      rw [hagent target htarget]
      exact hold queue hqueue v hv'

/-- **One step.**  Under the condition, what the hub has stays current. -/
theorem current_step (h : Current w) (hv : Valid w) {a : Act} (hm : Meets w a) :
    Current (step w a) := by
  cases a with
  | subscribe ch events => exact current_subscribe h hv ch events
  | write ch data =>
    refine current_enqueue hv ch h (fun ch' hne => IndexMap.get?_insert_of_ne data hne) ?_ ?_
    · intro _ v hdata
      obtain rfl : data = v := Option.some.inj hdata
      exact IndexMap.get?_insert_self ..
    · intro hev
      cases hev
  | emit ch ev =>
    rw [step]
    by_cases hev : (ev.isAggregateUpdate || ev.isChannelSync) = true
    · rw [if_pos hev]
      exact h
    · rw [if_neg hev]
      rw [Bool.not_eq_true, Bool.or_eq_false_iff] at hev
      refine current_enqueue hv ch h (fun _ _ => rfl) (fun hup => ?_) fun _ => rfl
      exact absurd (hev.1.symm.trans hup) Bool.false_ne_true
  | task key a =>
    rw [step]
    split
    · rename_i st hst
      obtain ⟨t, hentry⟩ := hv.entry key st hst
      rw [hentry.task]
      exact current_stepStream h hv hst hentry hm
    · exact h

theorem coherent_of_current {w : World} (hv : Valid w) (h : Current w) : Coherent w := by
  intro ch st hst htask
  obtain ⟨t, hentry⟩ := hv.entry _ _ hst
  obtain rfl : t = ⟨ch, .streaming []⟩ := Option.some.inj (hentry.task.symm.trans htask)
  have hcache : ∀ v, w.cachedAggregate ch = some v → w.agent.get? ch = some v :=
    h _ st _ [] hst htask rfl
  refine ⟨hcache, fun cb hcb hearly hfollows => ?_⟩
  have hshown : cb.lastAggregate = w.cachedAggregate ch := hentry.shown cb hcb hearly hfollows
  rw [hshown]
  exact ⟨hcache, fun _ hv => hv⟩

/-- A stream that opens coherent was opened under the condition. -/
theorem meets_of_coherent (hv : Valid w) {a : Act} (h : Coherent (step w a)) : Meets w a := by
  cases a with
  | task key a =>
    cases a with
    | subscribed ok =>
      cases ok with
      | false => exact trivial
      | true =>
        intro st ch hst htask v hcache
        obtain ⟨t, hentry⟩ := hv.entry key st hst
        obtain rfl : t = ⟨ch, .subscribing⟩ := Option.some.inj (hentry.task.symm.trans htask)
        have hstep : step w (.task key (.subscribed true)) =
            goTo w key st ⟨ch, .subscribing⟩ (.streaming []) := by
          rw [step, hst]
          simp only [htask]
          rfl
        obtain rfl : ch.cacheKey = key := hentry.key
        rw [hstep] at h
        have hopen := h ch _ (IndexMap.get?_insert_self ..) rfl
        exact hopen.1 v hcache
    | _ => exact trivial
  | _ => exact trivial

end Step

/-! ## The run -/

theorem valid_exec (agent : IndexMap ChannelRef Json) (as : List Act) :
    Valid (exec step (init agent) as) :=
  exec_invariant step (valid_init agent) fun _ hv a _ => valid_step hv a

/-- **Exactly when the hub is coherent.**  In every state of a run what is cached of an
open channel is the agent's aggregate, if and only if every stream of the run was opened
while what was cached was the agent's aggregate. -/
theorem coherent_iff_meets (agent : IndexMap ChannelRef Json) (as : List Act) :
    (∀ pre, pre <+: as → Coherent (exec step (init agent) pre)) ↔
      ∀ pre a, pre ++ [a] <+: as → Meets (exec step (init agent) pre) a := by
  constructor
  · intro h pre a hpre
    have hcoherent := h _ hpre
    rw [exec_concat] at hcoherent
    exact meets_of_coherent (valid_exec agent pre) hcoherent
  · intro h pre hpre
    refine coherent_of_current (valid_exec agent pre) ?_
    refine prefix_induction (P := fun pre => Current (exec step (init agent) pre)) ?_ ?_ pre hpre
    · intro key st t queue hst
      rw [exec_nil, init, IndexMap.get?_empty] at hst
      cases hst
    · intro pre a hpre' hcurrent
      rw [exec_concat]
      exact current_step hcurrent (valid_exec agent pre) (h pre a hpre')

/-- Where the hub is coherent, a read gives the agent's aggregate, cached or not. -/
theorem fetchChannelData_of_coherent {w : World} (h : Coherent w) {ch : ChannelRef}
    {st : ChannelState} (hst : w.channels.get? ch.cacheKey = some st)
    (htask : st.task = some ⟨ch, .streaming []⟩) : w.fetchChannelData ch = w.agent.get? ch := by
  obtain ⟨hcache, -⟩ := h ch st hst htask
  rw [World.fetchChannelData]
  cases hc : w.cachedAggregate ch with
  | none => rfl
  | some v => exact (hcache v hc).symm

/-! ## Writes that are never seen -/

def tagValues : ChannelRef := ⟨"tag_values", none⟩

/-- A callback is registered, and the channel fetched. -/
def seedRun : List Act :=
  [.subscribe tagValues (.bitor .AGGREGATE_UPDATE .CHANNEL_SYNC), .task "tag_values" .start,
    .task "tag_values" (.fetched true)]

/-- What was fetched is dispatched, and the stream opens. -/
def openRun : List Act :=
  [.task "tag_values" .cache, .task "tag_values" .sync, .task "tag_values" (.subscribed true)]

/-- The agent starts with `false`; the write to come is of `true`. -/
def staleRun (as : List Act) : World := exec step (init (.ofList [(tagValues, .bool false)])) as

/-- The write falls between the fetch and the subscription. -/
def writeEarly : List Act := seedRun ++ .write tagValues (.bool true) :: openRun

/-- The write falls between the loss of the stream and its reopening. -/
def writeLate : List Act :=
  seedRun ++ openRun ++ [.task "tag_values" .ended, .write tagValues (.bool true),
    .task "tag_values" .retry, .task "tag_values" (.subscribed true)]

/-- The stream is open with nothing undelivered, and the cache and the callback have
what the agent had before the write. -/
def Stale (w : World) : Prop :=
  w.agent.get? tagValues = some (.bool true) ∧
    w.cachedAggregate tagValues = some (.bool false) ∧
    ∃ st, w.channels.get? "tag_values" = some st ∧ st.task = some ⟨tagValues, .streaming []⟩ ∧
      st.callbacks.map (·.lastAggregate) = [some (.bool false)]

theorem not_coherent_of_stale {w : World} (h : Stale w) : ¬ Coherent w := by
  obtain ⟨hagent, hcache, st, hst, htask, -⟩ := h
  intro hcoherent
  have hfresh := (hcoherent tagValues st hst htask).1 _ hcache
  rw [hagent] at hfresh
  cases hfresh

/-- A write between the fetch and the subscription, or while the hub reconnects, is not
seen. -/
theorem unseen_write :
    (Stale (staleRun writeEarly) ∧ ¬ Coherent (staleRun writeEarly)) ∧
      Stale (staleRun writeLate) ∧ ¬ Coherent (staleRun writeLate) := by
  have hearly : Stale (staleRun writeEarly) := ⟨rfl, rfl, _, rfl, rfl, rfl⟩
  have hlate : Stale (staleRun writeLate) := ⟨rfl, rfl, _, rfl, rfl, rfl⟩
  exact ⟨⟨hearly, not_coherent_of_stale hearly⟩, hlate, not_coherent_of_stale hlate⟩

end SubscriptionHub
end Doover
