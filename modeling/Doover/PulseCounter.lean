import Mathlib.Data.Rat.Defs
import Mathlib.Algebra.Order.Field.Rat
import Mathlib.Tactic.Linarith
import Mathlib.Tactic.NormNum
import Doover.StepRuns

/-! # Counting pulses

A `PulseCounter` counts the pulses of one digital input: live ones, that a listener hears, or
those of the platform's event log, fetched in batches.  One counter does not do both.

Every fetch returns the log from its start, so a batch repeats events of the batches before.
The counter takes an event for a new pulse when it is more than 10 ms after the last.  Of a log
with more than that between any two events each pulse is counted once, whatever the batches
(`events_counted_once`).

Times are exact rationals, in seconds; those of events are whole milliseconds.
-/

namespace Doover
open StepRuns

inductive Edge where
  | rising
  | falling
  | both
deriving DecidableEq

/-- An event of the platform's log. -/
structure PlatformEvent where
  /-- Its type. -/
  event : String
  /-- In unix milliseconds. -/
  time : ℤ

/-- The level and the edge of an event that is a pulse; voltage events have no edge. -/
def PlatformEvent.pulse (e : PlatformEvent) : Option (Bool × Option Edge) :=
  if e.event = "DI_R" then some (true, some .rising)
  else if e.event = "DI_F" then some (false, some .falling)
  else if e.event = "VI" then some (false, none)
  else none

def PlatformEvent.seconds (e : PlatformEvent) : ℚ := e.time / 1000

/-- What a callback is told of a pulse. -/
structure PulseCounterUpdate where
  pin : ℤ
  value : Bool
  /-- Since the pulse before. -/
  dtSecs : ℚ
  /-- Of an event; a live pulse is now. -/
  timestamp : Option ℚ
  count : ℕ
  edge : Option Edge

/-- A call of one of the counter's callbacks. -/
inductive Called where
  | pulse (update : PulseCounterUpdate)
  | systemEvent (event : PlatformEvent)

def Called.update? : Called → Option PulseCounterUpdate
  | .pulse update => some update
  | .systemEvent _ => none

structure PulseCounterState where
  count : ℕ
  pulseTimestamps : List ℚ
  receivingPulses : Bool
  receivingEvents : Bool
  startTime : ℚ

structure PulseCounter where
  pin : ℤ
  edge : Edge
  /-- Whether there is a callback for pulses. -/
  callback : Bool
  /-- Whether there is one for system events. -/
  systemEventCallback : Bool
  state : PulseCounterState

namespace PulseCounter

def new (pin : ℤ) (edge : Edge) (callback systemEventCallback : Bool) (now : ℚ) : PulseCounter :=
  ⟨pin, edge, callback, systemEventCallback, ⟨0, [], false, false, now⟩⟩

/-! ## Events -/

/-- What an event with the clock at `now` comes to, unless it is no pulse or an old one. -/
def nextUpdate (c : PulseCounter) (e : PlatformEvent) (now : ℚ) : Option PulseCounterUpdate := do
  let (value, edge) ← e.pulse
  -- an event without a time is now
  let timestamp := if e.seconds = 0 then now else e.seconds
  match c.state.pulseTimestamps.getLast? with
  | some last =>
    if timestamp ≤ last + 1 / 100 then none
    else some ⟨c.pin, value, timestamp - last, some timestamp, c.state.count + 1, edge⟩
  | none => some ⟨c.pin, value, 0, some timestamp, c.state.count + 1, edge⟩

/-- One event, with the clock as it is received. -/
def receiveEvent (c : PulseCounter) (e : PlatformEvent × ℚ) : PulseCounter :=
  match c.nextUpdate e.1 e.2 with
  | some u => { c with state := { c.state with
      count := u.count, pulseTimestamps := c.state.pulseTimestamps ++ u.timestamp.toList } }
  | none => c

def calledByEvent (c : PulseCounter) (e : PlatformEvent × ℚ) : List Called :=
  match e.1.pulse with
  | some _ => if c.callback then (c.nextUpdate e.1 e.2).toList.map .pulse else []
  | none => if c.systemEventCallback then [.systemEvent e.1] else []

def beginEvents (c : PulseCounter) : PulseCounter :=
  { c with state := { c.state with receivingEvents := true } }

/-- A batch of events; a counter of live pulses takes none. -/
def receiveEvents (c : PulseCounter) (events : List (PlatformEvent × ℚ)) : PulseCounter :=
  if c.state.receivingPulses then c else exec receiveEvent c.beginEvents events

def calledByEvents (c : PulseCounter) (events : List (PlatformEvent × ℚ)) : List Called :=
  if c.state.receivingPulses then []
  else outputs receiveEvent calledByEvent c.beginEvents events

end PulseCounter

/-! ## The log -/

/-- More than 10 ms between any two events, and each has a time. -/
structure Spaced (log : List PlatformEvent) : Prop where
  apart : log.Pairwise fun e e' => e.time + 10 < e'.time
  timed : ∀ e ∈ log, e.time ≠ 0

def pulses (events : List PlatformEvent) : List PlatformEvent :=
  events.filter fun e => e.pulse.isSome

/-- The calls for pulses that are all counted, each with the gap to the one before. -/
def updates (pin : ℤ) (ps : List PlatformEvent) : List PulseCounterUpdate :=
  ps.mapIdx fun i e =>
    { pin
      value := (e.pulse.map Prod.fst).getD false
      dtSecs := ((ps.take i).getLast?.map fun last => e.seconds - last.seconds).getD 0
      timestamp := some e.seconds
      count := i + 1
      edge := e.pulse.bind Prod.snd }

def longer (a b : List PlatformEvent) : List PlatformEvent := if a.length < b.length then b else a

/-- The longest of the batches. -/
def longest (batches : List (List PlatformEvent)) : List PlatformEvent := batches.foldl longer []

section Log
variable {log seen es ps : List PlatformEvent} {e last : PlatformEvent}

theorem Spaced.sublist (h : Spaced log) (hes : es.Sublist log) : Spaced es :=
  ⟨h.apart.sublist hes, fun e he => h.timed e (hes.mem he)⟩

theorem Spaced.of_prefix (h : Spaced log) (hes : es <+: log) : Spaced es := h.sublist hes.sublist

theorem Spaced.of_pulses (h : Spaced log) : Spaced (pulses log) := h.sublist List.filter_sublist

theorem longer_of_le (hseen : seen <+: log) (hes : es <+: log) (h : seen.length ≤ es.length) :
    longer seen es = es := by
  unfold longer
  split
  · rfl
  · exact (List.prefix_of_prefix_length_le hseen hes h).eq_of_length (by omega)

theorem longer_of_ge (h : es.length ≤ seen.length) : longer seen es = seen := if_neg (by omega)

theorem longer_isPrefix (hseen : seen <+: log) (hes : es <+: log) : longer seen es <+: log := by
  unfold longer
  split
  · exact hes
  · exact hseen

theorem updates_concat (pin : ℤ) (ps : List PlatformEvent) (e : PlatformEvent) :
    updates pin (ps ++ [e]) = updates pin ps ++
      [{ pin
         value := (e.pulse.map Prod.fst).getD false
         dtSecs := (ps.getLast?.map fun last => e.seconds - last.seconds).getD 0
         timestamp := some e.seconds
         count := ps.length + 1
         edge := e.pulse.bind Prod.snd }] := by
  unfold updates
  rw [List.mapIdx_concat, List.take_left]
  congr 1
  refine List.ext_getElem (by simp) fun i hi hi' => ?_
  have hlen : i < ps.length := by simpa using hi
  simp only [List.getElem_mapIdx, List.take_append_of_le_length hlen.le]

/-- The last of the pulses is the newest. -/
theorem Spaced.time_le_getLast (h : Spaced ps) (he : e ∈ ps) (hlast : ps.getLast? = some last) :
    e.time ≤ last.time := by
  obtain ⟨front, rfl⟩ := List.getLast?_eq_some_iff.mp hlast
  rcases List.mem_append.mp he with he | he
  · have happart := (List.pairwise_append.mp h.apart).2.2 e he last (List.mem_singleton_self _)
    omega
  · rw [List.mem_singleton.mp he]

/-- An event of the log is more than 10 ms after the pulses before it. -/
theorem Spaced.getLast_pulses_lt (h : Spaced (es ++ [e]))
    (hlast : (pulses es).getLast? = some last) : last.time + 10 < e.time :=
  (List.pairwise_append.mp h.apart).2.2 last
    (List.mem_filter.mp (List.mem_of_getLast? hlast)).1 e (List.mem_singleton_self _)

theorem seconds_le_iff : e.seconds ≤ last.seconds + 1 / 100 ↔ e.time ≤ last.time + 10 := by
  unfold PlatformEvent.seconds
  have hcast : (e.time : ℚ) ≤ last.time + 10 ↔ e.time ≤ last.time + 10 := by exact_mod_cast Iff.rfl
  rw [← hcast]
  constructor <;> intro <;> linarith

theorem seconds_ne_zero (h : e.time ≠ 0) : e.seconds ≠ 0 :=
  div_ne_zero (by exact_mod_cast h) (by norm_num)

theorem pulses_concat_of_pulse (h : e.pulse.isSome = true) :
    pulses (es ++ [e]) = pulses es ++ [e] := by
  unfold pulses
  rw [List.filter_append, List.filter_cons, if_pos h, List.filter_nil]

theorem pulses_concat_of_not_pulse (h : e.pulse = none) : pulses (es ++ [e]) = pulses es := by
  unfold pulses
  rw [List.filter_append, List.filter_cons, h, if_neg (by decide), List.filter_nil, List.append_nil]

end Log

/-! ## What is counted -/

namespace PulseCounter

/-- The counter has counted the pulses `ps`. -/
structure Counted (c : PulseCounter) (ps : List PlatformEvent) : Prop where
  count : c.state.count = ps.length
  times : c.state.pulseTimestamps = ps.map PlatformEvent.seconds

section Counting
variable {c : PulseCounter} {ps log seen : List PlatformEvent} {e : PlatformEvent} {now : ℚ}

theorem Counted.getLast (h : c.Counted ps) :
    c.state.pulseTimestamps.getLast? = ps.getLast?.map PlatformEvent.seconds := by
  rw [h.times, List.getLast?_map]

theorem nextUpdate_of_not_pulse (h : e.pulse = none) : c.nextUpdate e now = none := by
  unfold nextUpdate
  rw [h]
  rfl

/-- An event that was counted is an old one. -/
theorem Counted.nextUpdate_of_mem (h : c.Counted ps) (hps : Spaced ps) (he : e ∈ ps) :
    c.nextUpdate e now = none := by
  obtain ⟨last, hlast⟩ := Option.isSome_iff_exists.mp
    (List.getLast?_isSome.mpr (List.ne_nil_of_mem he))
  have hold : e.seconds ≤ last.seconds + 1 / 100 := by
    have hle := hps.time_le_getLast he hlast
    exact seconds_le_iff.mpr (by omega)
  have hlast' : c.state.pulseTimestamps.getLast? = some last.seconds := by
    rw [h.getLast, hlast]
    rfl
  unfold nextUpdate
  cases e.pulse with
  | none => rfl
  | some kind =>
    simp only [hlast', if_neg (seconds_ne_zero (hps.timed e he)), if_pos hold, Option.bind_some,
      bind]

/-- An event after those that were counted is a new pulse. -/
theorem Counted.nextUpdate_of_later {value : Bool} {edge : Option Edge} (h : c.Counted ps)
    (hpulse : e.pulse = some (value, edge)) (htimed : e.time ≠ 0)
    (hlater : ∀ last, ps.getLast? = some last → last.time + 10 < e.time) (now : ℚ) :
    c.nextUpdate e now = some
      ⟨c.pin, value, (ps.getLast?.map fun last => e.seconds - last.seconds).getD 0,
        some e.seconds, ps.length + 1, edge⟩ := by
  unfold nextUpdate
  rw [hpulse, h.getLast, h.count, if_neg (seconds_ne_zero htimed)]
  cases hlast : ps.getLast? with
  | none => rfl
  | some last =>
    have hnew : ¬ e.seconds ≤ last.seconds + 1 / 100 := by
      have hlt := hlater last hlast
      rw [seconds_le_iff]
      omega
    simp only [bind, Option.bind_some, Option.map_some, if_neg hnew, Option.getD_some]

/-- What the callback for pulses was told. -/
def told (calls : List Called) : List PulseCounterUpdate := calls.filterMap Called.update?

/-- The calls that pulses are due, if there is a callback. -/
def due (c : PulseCounter) (ps : List PlatformEvent) : List PulseCounterUpdate :=
  if c.callback then updates c.pin ps else []

theorem told_append (calls calls' : List Called) :
    told (calls ++ calls') = told calls ++ told calls' := List.filterMap_append

theorem due_receiveEvent (c : PulseCounter) (e : PlatformEvent × ℚ) :
    (c.receiveEvent e).due = c.due := by
  unfold receiveEvent
  cases c.nextUpdate e.1 e.2 <;> rfl

/-- An event that is no pulse or an old one changes nothing. -/
theorem receiveEvent_of_none (h : c.nextUpdate e now = none) :
    c.receiveEvent (e, now) = c ∧ told (c.calledByEvent (e, now)) = [] := by
  unfold receiveEvent calledByEvent
  rw [h]
  refine ⟨rfl, ?_⟩
  cases e.pulse with
  | none => cases c.systemEventCallback <;> rfl
  | some kind => cases c.callback <;> rfl

/-- A new pulse is counted, and there is one call for it. -/
theorem Counted.receiveEvent_of_later {value : Bool} {edge : Option Edge} (h : c.Counted ps)
    (hpulse : e.pulse = some (value, edge)) (htimed : e.time ≠ 0)
    (hlater : ∀ last, ps.getLast? = some last → last.time + 10 < e.time) :
    (c.receiveEvent (e, now)).Counted (ps ++ [e]) ∧
      c.due ps ++ told (c.calledByEvent (e, now)) = c.due (ps ++ [e]) := by
  have hnext := h.nextUpdate_of_later hpulse htimed hlater now
  unfold receiveEvent calledByEvent
  simp only [hnext, hpulse]
  refine ⟨⟨?_, ?_⟩, ?_⟩
  · rw [List.length_append]
    rfl
  · rw [h.times, List.map_append]
    rfl
  · unfold due
    cases c.callback with
    | false => rfl
    | true =>
      rw [updates_concat, hpulse]
      rfl

/-- **One event of a batch.** -/
theorem Counted.receiveEvent {bs : List PlatformEvent} (h : c.Counted (pulses (longer seen bs)))
    (hlog : Spaced log) (hseen : seen <+: log) (hbs : bs ++ [e] <+: log) (now : ℚ) :
    (c.receiveEvent (e, now)).Counted (pulses (longer seen (bs ++ [e]))) ∧
      c.due (pulses (longer seen bs)) ++ told (c.calledByEvent (e, now)) =
        c.due (pulses (longer seen (bs ++ [e]))) := by
  have hlen : (bs ++ [e]).length = bs.length + 1 := List.length_append
  by_cases hrepeat : bs.length < seen.length
  · -- a batch before had the event
    rw [longer_of_ge hrepeat.le] at h ⊢
    rw [longer_of_ge (by omega)]
    have hmem : e ∈ seen :=
      (List.prefix_of_prefix_length_le hbs hseen (by omega)).subset
        (List.mem_append_right _ (List.mem_singleton_self _))
    have hnone : c.nextUpdate e now = none := by
      cases hpulse : e.pulse with
      | none => exact nextUpdate_of_not_pulse hpulse
      | some kind =>
        have hcounted : e ∈ pulses seen := List.mem_filter.mpr ⟨hmem, by rw [hpulse]; rfl⟩
        exact h.nextUpdate_of_mem (hlog.of_prefix hseen).of_pulses hcounted
    obtain ⟨hsame, htold⟩ := receiveEvent_of_none hnone
    rw [hsame, htold, List.append_nil]
    exact ⟨h, rfl⟩
  · have hbs' : bs <+: log := (List.prefix_append bs [e]).trans hbs
    rw [longer_of_le hseen hbs' (by omega)] at h ⊢
    rw [longer_of_le hseen hbs (by omega)]
    cases hpulse : e.pulse with
    | none =>
      obtain ⟨hsame, htold⟩ := receiveEvent_of_none (nextUpdate_of_not_pulse hpulse)
      rw [hsame, htold, List.append_nil, pulses_concat_of_not_pulse hpulse]
      exact ⟨h, rfl⟩
    | some kind =>
      have hspaced := hlog.of_prefix hbs
      rw [pulses_concat_of_pulse (by rw [hpulse]; rfl)]
      exact h.receiveEvent_of_later hpulse
        (hspaced.timed e (List.mem_append_right _ (List.mem_singleton_self _)))
        fun last => hspaced.getLast_pulses_lt

/-- A batch leaves the counter's mode and its callbacks. -/
theorem exec_receiveEvent_frame (c : PulseCounter) (es : List (PlatformEvent × ℚ)) :
    (exec PulseCounter.receiveEvent c es).state.receivingPulses = c.state.receivingPulses ∧
      (exec PulseCounter.receiveEvent c es).due = c.due :=
  exec_invariant PulseCounter.receiveEvent
    (I := fun c' => c'.state.receivingPulses = c.state.receivingPulses ∧ c'.due = c.due) ⟨rfl, rfl⟩
    fun c' h e _ => by
      refine ⟨?_, (due_receiveEvent c' e).trans h.2⟩
      rw [← h.1]
      unfold PulseCounter.receiveEvent
      cases c'.nextUpdate e.1 e.2 <;> rfl

/-- The events of a batch, from the first. -/
theorem Counted.exec_receiveEvent (h : c.Counted (pulses seen)) (hlog : Spaced log)
    (hseen : seen <+: log) {es : List (PlatformEvent × ℚ)} (hes : es.map Prod.fst <+: log) :
    (exec PulseCounter.receiveEvent c es).Counted (pulses (longer seen (es.map Prod.fst))) ∧
      c.due (pulses seen) ++ told (outputs PulseCounter.receiveEvent calledByEvent c es) =
        c.due (pulses (longer seen (es.map Prod.fst))) := by
  induction es using List.reverseRecOn with
  | nil =>
    rw [List.map_nil, longer_of_ge (Nat.zero_le _)]
    exact ⟨h, List.append_nil _⟩
  | append_singleton es e ih =>
    rw [List.map_append, List.map_singleton] at hes ⊢
    obtain ⟨hcounted, hdue⟩ := ih ((List.prefix_append ..).trans hes)
    obtain ⟨hcounted', hdue'⟩ := hcounted.receiveEvent hlog hseen hes e.2
    rw [exec_concat, outputs_concat, told_append, ← List.append_assoc, hdue]
    rw [(exec_receiveEvent_frame c es).2] at hdue'
    exact ⟨hcounted', hdue'⟩

/-- **One batch.** -/
theorem Counted.receiveEvents (h : c.Counted (pulses seen))
    (hpulses : c.state.receivingPulses = false) (hlog : Spaced log) (hseen : seen <+: log)
    {es : List (PlatformEvent × ℚ)} (hes : es.map Prod.fst <+: log) :
    (c.receiveEvents es).Counted (pulses (longer seen (es.map Prod.fst))) ∧
      c.due (pulses seen) ++ told (c.calledByEvents es) =
        c.due (pulses (longer seen (es.map Prod.fst))) := by
  have hbegun : c.beginEvents.Counted (pulses seen) := ⟨h.count, h.times⟩
  unfold PulseCounter.receiveEvents calledByEvents
  rw [hpulses]
  exact hbegun.exec_receiveEvent hlog hseen hes

theorem receiveEvents_frame (hpulses : c.state.receivingPulses = false)
    (es : List (PlatformEvent × ℚ)) :
    (c.receiveEvents es).state.receivingPulses = false ∧ (c.receiveEvents es).due = c.due := by
  obtain ⟨hmode, hdue⟩ := exec_receiveEvent_frame c.beginEvents es
  unfold PulseCounter.receiveEvents
  rw [hpulses]
  exact ⟨hmode.trans hpulses, hdue⟩

/-- The batches, from the first. -/
theorem exec_receiveEvents (c : PulseCounter) (hnew : c.Counted []) (htold : c.due [] = [])
    (hpulses : c.state.receivingPulses = false) (hlog : Spaced log)
    {batches : List (List (PlatformEvent × ℚ))}
    (hbatches : ∀ es ∈ batches, es.map Prod.fst <+: log) :
    let seen := longest (batches.map fun es => es.map Prod.fst)
    seen <+: log ∧ (exec PulseCounter.receiveEvents c batches).state.receivingPulses = false ∧
      (exec PulseCounter.receiveEvents c batches).due = c.due ∧
      (exec PulseCounter.receiveEvents c batches).Counted (pulses seen) ∧
      told (outputs PulseCounter.receiveEvents calledByEvents c batches) = c.due (pulses seen) := by
  induction batches using List.reverseRecOn with
  | nil => exact ⟨List.nil_prefix, hpulses, rfl, hnew, htold.symm⟩
  | append_singleton batches es ih =>
    obtain ⟨hseen, hmode, hdue, hcounted, htold⟩ :=
      ih fun es' hes' => hbatches es' (List.mem_append_left _ hes')
    have hes := hbatches es (List.mem_append_right _ (List.mem_singleton_self _))
    obtain ⟨hcounted', htold'⟩ := hcounted.receiveEvents hmode hlog hseen hes
    obtain ⟨hmode', hdue'⟩ := receiveEvents_frame hmode es
    rw [longest, List.map_append, List.foldl_append, List.map_singleton, List.foldl_cons,
      List.foldl_nil, exec_concat, outputs_concat, told_append, htold]
    rw [hdue] at htold' hdue'
    exact ⟨longer_isPrefix hseen hes, hmode', hdue', hcounted', htold'⟩

/-- **Batches.**  Whatever prefixes of the log a counter that is new is given, it has counted the
pulses of the longest, at their times, and its callback was told of each once. -/
theorem events_counted_once (pin : ℤ) (edge : Edge) (callback systemEventCallback : Bool) (start : ℚ)
    (hlog : Spaced log) {batches : List (List (PlatformEvent × ℚ))}
    (hbatches : ∀ es ∈ batches, es.map Prod.fst <+: log) :
    let c := new pin edge callback systemEventCallback start
    let ps := pulses (longest (batches.map fun es => es.map Prod.fst))
    (exec PulseCounter.receiveEvents c batches).state.count = ps.length ∧
      (exec PulseCounter.receiveEvents c batches).state.pulseTimestamps =
        ps.map PlatformEvent.seconds ∧
      told (outputs PulseCounter.receiveEvents calledByEvents c batches) =
        if callback then updates pin ps else [] := by
  intro c
  have hnew : c.Counted [] := ⟨rfl, rfl⟩
  have hdue : c.due [] = [] := by
    unfold due
    cases c.callback <;> rfl
  obtain ⟨-, -, -, hcounted, htold⟩ := exec_receiveEvents c hnew hdue rfl hlog hbatches
  exact ⟨hcounted.count, hcounted.times, htold⟩

end Counting

/-! ### A rise, a wake-up and a fall, fetched twice -/

def dayLog : List PlatformEvent := [⟨"DI_R", 10000⟩, ⟨"CM4_ON", 11000⟩, ⟨"DI_F", 12000⟩]

theorem fetched_twice :
    let c := new 0 .rising true false 0
    let batches := [[(⟨"DI_R", 10000⟩, 0)], dayLog.map fun e => (e, 0)]
    (exec PulseCounter.receiveEvents c batches).state.count = 2 := by
  intro c batches
  have hlog : Spaced dayLog := ⟨by decide, by decide⟩
  have hbatches : ∀ es ∈ batches, es.map Prod.fst <+: dayLog := by
    simp [batches, dayLog]
  exact (events_counted_once 0 .rising true false 0 hlog hbatches).1

end PulseCounter
end Doover
