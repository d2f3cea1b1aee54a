import Doover.PulseCounter

/-! # Listening for pulses

A counter of live pulses spawns a listener.  The listener opens a stream, and opens another when
that one ends; the sidecar reports a pulse on every open stream of the pin, and each report
goes through the counter's `onPulse`.

Starting again spawns a further listener, the mode being no obstacle.  A pulse is counted as
often as there are streams open, so every pulse of a run is counted once exactly when none
outside the grace period finds two (`pulses_counted_once_iff`), as none does when the counter is
started once (`heard_length_le_starts`).  The two modes do exclude each other, in every run.
-/

namespace Doover
open StepRuns

/-- Pulses within this many seconds of a start are ignored. -/
def PULSE_GRACE_PERIOD : ℚ := 1 / 5

namespace PulseCounter

/-- Whether the counter may listen, and the counter then. -/
def startListenerPulses (c : PulseCounter) (now : ℚ) : Option PulseCounter :=
  if c.state.receivingEvents then none
  else some { c with state := { c.state with receivingPulses := true, startTime := now } }

/-- A report that a listener hands on with the clock at `h.2`. -/
def inGrace (c : PulseCounter) (h : PulseCounterUpdate × ℚ) : Prop :=
  h.2 - c.state.startTime < PULSE_GRACE_PERIOD

instance (c : PulseCounter) (h : PulseCounterUpdate × ℚ) : Decidable (c.inGrace h) :=
  inferInstanceAs (Decidable (_ < _))

def onPulse (c : PulseCounter) (h : PulseCounterUpdate × ℚ) : PulseCounter :=
  if c.inGrace h then c
  else { c with state := { c.state with
    count := c.state.count + 1, pulseTimestamps := c.state.pulseTimestamps ++ [h.2] } }

/-- The count a listener has is not the counter's. -/
def calledOnPulse (c : PulseCounter) (h : PulseCounterUpdate × ℚ) : List Called :=
  if c.inGrace h then []
  else if c.callback then [.pulse { h.1 with count := c.state.count + 1, timestamp := none }]
  else []

/-- The counter as the fetch begins; what is fetched is then received. -/
def updateEvents (c : PulseCounter) : PulseCounter :=
  if c.state.receivingPulses then c else c.beginEvents

def addExistingEvents (c : PulseCounter) (timestamps : List ℚ) : PulseCounter :=
  if c.state.receivingPulses then c
  else
    let all := c.state.pulseTimestamps ++ timestamps
    { c with state := { c.beginEvents.state with pulseTimestamps := all, count := all.length } }

end PulseCounter

/-! ## Listeners -/

/-- A task that listens. -/
structure Listener where
  /-- Its own count. -/
  counter : ℕ
  /-- Whether its stream is open. -/
  connected : Bool

/-- A counter with its listeners, oldest first. -/
structure Counting where
  counter : PulseCounter
  listeners : List Listener

namespace Counting

/-- What happens to a counter. -/
inductive Op where
  | startListenerPulses (now : ℚ)
  | updateEvents
  | addExistingEvents (timestamps : List ℚ)
  | receiveEvents (events : List (PlatformEvent × ℚ))
  /-- The stream of the listener `i` opens. -/
  | connect (i : ℕ)
  /-- It ends. -/
  | disconnect (i : ℕ)
  /-- A report on every open stream; that of the listener `i` is handled with the clock at
  `now i`.  The first report of a stream has no `dtSecs`. -/
  | pulse (value : Option Bool) (dtSecs : Option ℚ) (now : ℕ → ℚ)

/-- What the listeners hand on of a pulse. -/
def heardPulse (w : Counting) (value : Option Bool) (dtSecs : ℚ) (now : ℕ → ℚ) :
    List (PulseCounterUpdate × ℚ) :=
  (w.listeners.zipIdx.filter fun l => l.1.connected).map fun l =>
    (⟨w.counter.pin, value.getD false, dtSecs, none, l.1.counter + 1, some w.counter.edge⟩, now l.2)

def heard (w : Counting) : Op → List (PulseCounterUpdate × ℚ)
  | .pulse value (some dtSecs) now => w.heardPulse value dtSecs now
  | _ => []

def step (w : Counting) (op : Op) : Counting :=
  match op with
  | .startListenerPulses now =>
    match w.counter.startListenerPulses now with
    | some counter => ⟨counter, w.listeners ++ [⟨w.counter.state.count, false⟩]⟩
    | none => w
  | .updateEvents => { w with counter := w.counter.updateEvents }
  | .addExistingEvents timestamps =>
    { w with counter := w.counter.addExistingEvents timestamps }
  | .receiveEvents events => { w with counter := w.counter.receiveEvents events }
  | .connect i => { w with listeners := w.listeners.modify i fun l => { l with connected := true } }
  | .disconnect i =>
    { w with listeners := w.listeners.modify i fun l => { l with connected := false } }
  | .pulse _ none _ => w
  | .pulse value (some dtSecs) now =>
    ⟨exec PulseCounter.onPulse w.counter (w.heardPulse value dtSecs now),
      w.listeners.map fun l => if l.connected then { l with counter := l.counter + 1 } else l⟩

/-- The calls of the callbacks. -/
def called (w : Counting) : Op → List Called
  | .receiveEvents events => w.counter.calledByEvents events
  | .pulse value (some dtSecs) now =>
    outputs PulseCounter.onPulse PulseCounter.calledOnPulse w.counter
      (w.heardPulse value dtSecs now)
  | _ => []

/-- A counter as it is made. -/
def getNewPulseCounter (pin : ℤ) (edge : Edge) (callback systemEventCallback : Bool) (now : ℚ)
    (autoStart : Bool) : Counting :=
  let w := ⟨.new pin edge callback systemEventCallback now, []⟩
  if autoStart then step w (.startListenerPulses now) else w

/-! ## The two modes -/

/-- The counter is not used for both. -/
def OneMode (w : Counting) : Prop :=
  ¬ (w.counter.state.receivingPulses = true ∧ w.counter.state.receivingEvents = true)

section Modes

theorem receiveEvent_modes (c : PulseCounter) (e : PlatformEvent × ℚ) :
    (c.receiveEvent e).state.receivingPulses = c.state.receivingPulses ∧
      (c.receiveEvent e).state.receivingEvents = c.state.receivingEvents := by
  unfold PulseCounter.receiveEvent
  cases c.nextUpdate e.1 e.2 <;> exact ⟨rfl, rfl⟩

theorem onPulse_modes (c : PulseCounter) (h : PulseCounterUpdate × ℚ) :
    (c.onPulse h).state.receivingPulses = c.state.receivingPulses ∧
      (c.onPulse h).state.receivingEvents = c.state.receivingEvents := by
  unfold PulseCounter.onPulse
  split <;> exact ⟨rfl, rfl⟩

/-- A step that leaves the modes does so in every run. -/
theorem exec_modes {A : Type} {f : PulseCounter → A → PulseCounter}
    (hf : ∀ c a, (f c a).state.receivingPulses = c.state.receivingPulses ∧
      (f c a).state.receivingEvents = c.state.receivingEvents) (c : PulseCounter) (as : List A) :
    (exec f c as).state.receivingPulses = c.state.receivingPulses ∧
      (exec f c as).state.receivingEvents = c.state.receivingEvents := by
  refine exec_invariant f (I := fun c' => c'.state.receivingPulses = c.state.receivingPulses ∧
    c'.state.receivingEvents = c.state.receivingEvents) ⟨rfl, rfl⟩ fun c' h a _ => ?_
  exact ⟨(hf c' a).1.trans h.1, (hf c' a).2.trans h.2⟩

/-- **One operation.** -/
theorem OneMode.step {w : Counting} (h : w.OneMode) (op : Op) : (w.step op).OneMode := by
  unfold OneMode at h ⊢
  cases op with
  | startListenerPulses now =>
    unfold Counting.step PulseCounter.startListenerPulses
    cases hevents : w.counter.state.receivingEvents with
    | true => exact h
    | false =>
      rintro ⟨-, hboth⟩
      cases hevents.symm.trans hboth
  | updateEvents =>
    unfold Counting.step PulseCounter.updateEvents
    cases hpulses : w.counter.state.receivingPulses with
    | true => exact h
    | false =>
      rintro ⟨hboth, -⟩
      cases hpulses.symm.trans hboth
  | addExistingEvents timestamps =>
    unfold Counting.step PulseCounter.addExistingEvents
    cases hpulses : w.counter.state.receivingPulses with
    | true => exact h
    | false =>
      rintro ⟨hboth, -⟩
      cases hpulses.symm.trans hboth
  | receiveEvents events =>
    unfold Counting.step PulseCounter.receiveEvents
    cases hpulses : w.counter.state.receivingPulses with
    | true => exact h
    | false =>
      rintro ⟨hboth, -⟩
      have hmode := (exec_modes receiveEvent_modes w.counter.beginEvents events).1
      cases (hmode.trans hpulses).symm.trans hboth
  | connect i => exact h
  | disconnect i => exact h
  | pulse value dtSecs now =>
    cases dtSecs with
    | none => exact h
    | some dtSecs =>
      obtain ⟨hpulses, hevents⟩ :=
        exec_modes onPulse_modes w.counter (w.heardPulse value dtSecs now)
      unfold Counting.step
      rw [hpulses, hevents]
      exact h

end Modes

/-! ## Pulses -/

/-- Every listener that hears a pulse hears it outside the grace period. -/
def OutsideGrace (w : Counting) (op : Op) : Prop := ∀ h ∈ w.heard op, ¬ w.counter.inGrace h

/-- A pulse that is heard outside the grace period raises the count by one, with one call. -/
def CountsOnce (w : Counting) (op : Op) : Prop :=
  w.heard op ≠ [] → w.OutsideGrace op →
    (w.step op).counter.state.count = w.counter.state.count + 1 ∧
      (PulseCounter.told (w.called op)).length = if w.counter.callback then 1 else 0

/-- A pulse outside the grace period comes on two streams. -/
def HeardTwice (w : Counting) (op : Op) : Prop := 2 ≤ (w.heard op).length ∧ w.OutsideGrace op

section Pulses

/-- Each report outside the grace period is counted. -/
theorem exec_onPulse (c : PulseCounter) (hs : List (PulseCounterUpdate × ℚ))
    (hgrace : ∀ h ∈ hs, ¬ c.inGrace h) :
    (exec PulseCounter.onPulse c hs).state.count = c.state.count + hs.length ∧
      (PulseCounter.told (outputs PulseCounter.onPulse PulseCounter.calledOnPulse c hs)).length =
        if c.callback then hs.length else 0 := by
  induction hs generalizing c with
  | nil =>
    refine ⟨rfl, ?_⟩
    cases c.callback <;> rfl
  | cons h hs ih =>
    have hcounts : c.onPulse h = { c with state := { c.state with
        count := c.state.count + 1
        pulseTimestamps := c.state.pulseTimestamps ++ [h.2] } } :=
      if_neg (hgrace h List.mem_cons_self)
    have hgrace' : ∀ h' ∈ hs, ¬ (c.onPulse h).inGrace h' := by
      rw [hcounts]
      exact fun h' hmem => hgrace h' (List.mem_cons_of_mem h hmem)
    obtain ⟨hcount, htold⟩ := ih (c.onPulse h) hgrace'
    have hcalled : (PulseCounter.told (c.calledOnPulse h)).length = if c.callback then 1 else 0 := by
      unfold PulseCounter.calledOnPulse
      rw [if_neg (hgrace h List.mem_cons_self)]
      cases c.callback <;> rfl
    have hcallback : (c.onPulse h).callback = c.callback := by rw [hcounts]
    have hraised : (c.onPulse h).state.count = c.state.count + 1 := by rw [hcounts]
    rw [exec_cons, outputs, PulseCounter.told_append, List.length_append, hcount, htold, hcalled,
      hcallback, hraised, List.length_cons]
    refine ⟨by omega, ?_⟩
    cases c.callback with
    | false => rfl
    | true => exact Nat.add_comm ..

/-- A pulse is counted as often as it is heard. -/
theorem counts_heard {w : Counting} {op : Op} (hheard : w.heard op ≠ []) (h : w.OutsideGrace op) :
    (w.step op).counter.state.count = w.counter.state.count + (w.heard op).length ∧
      (PulseCounter.told (w.called op)).length =
        if w.counter.callback then (w.heard op).length else 0 := by
  cases op with
  | pulse value dtSecs now =>
    cases dtSecs with
    | none => exact absurd rfl hheard
    | some dtSecs => exact exec_onPulse w.counter (w.heardPulse value dtSecs now) h
  | _ => exact absurd rfl hheard

/-- **One pulse.** -/
theorem countsOnce_iff (w : Counting) (op : Op) : w.CountsOnce op ↔ ¬ w.HeardTwice op := by
  constructor
  · rintro honce ⟨htwice, hgrace⟩
    have hheard : w.heard op ≠ [] := by
      intro hnil
      rw [hnil] at htwice
      exact absurd htwice (by decide)
    have hcount := (counts_heard hheard hgrace).1
    rw [(honce hheard hgrace).1] at hcount
    omega
  · intro h hheard hgrace
    have hone : (w.heard op).length = 1 := by
      have hpos := List.length_pos_iff.mpr hheard
      have hlt : ¬ 2 ≤ (w.heard op).length := fun htwice => h ⟨htwice, hgrace⟩
      omega
    have hcounts := counts_heard hheard hgrace
    rwa [hone] at hcounts

/-- **Live pulses.**  In a run of operations on a new counter the modes exclude each other, and
every pulse outside the grace period is counted once, with one call, if and only if none finds
two streams of the counter open. -/
theorem pulses_counted_once_iff (pin : ℤ) (edge : Edge) (callback systemEventCallback : Bool)
    (now : ℚ) (autoStart : Bool) (ops : List Op) :
    let w := getNewPulseCounter pin edge callback systemEventCallback now autoStart
    ((∀ pre op, pre ++ [op] <+: ops → (exec step w pre).CountsOnce op) ∧
      ∀ pre, pre <+: ops → (exec step w pre).OneMode) ↔
    ∀ pre op, pre ++ [op] <+: ops → ¬ (exec step w pre).HeardTwice op := by
  intro w
  have hnew : w.OneMode := by
    cases autoStart <;> exact fun h => Bool.false_ne_true h.2
  have hmodes (pre : List Op) : (exec step w pre).OneMode :=
    exec_invariant step hnew fun w hw op _ => hw.step op
  constructor
  · rintro ⟨h, -⟩ pre op hpre
    exact (countsOnce_iff _ op).mp (h pre op hpre)
  · intro h
    exact ⟨fun pre op hpre => (countsOnce_iff _ op).mpr (h pre op hpre), fun pre _ => hmodes pre⟩

/-! ### Starting once -/

def Op.isStart : Op → Bool
  | .startListenerPulses _ => true
  | _ => false

theorem length_heard_le (w : Counting) (op : Op) : (w.heard op).length ≤ w.listeners.length := by
  cases op with
  | pulse value dtSecs now =>
    cases dtSecs with
    | none => exact Nat.zero_le _
    | some dtSecs =>
      show (w.heardPulse value dtSecs now).length ≤ _
      rw [heardPulse, List.length_map]
      exact (List.length_filter_le ..).trans List.length_zipIdx.le
  | _ => exact Nat.zero_le _

theorem length_listeners_step_le (w : Counting) (op : Op) :
    (w.step op).listeners.length ≤ w.listeners.length + [op].countP Op.isStart := by
  cases op with
  | startListenerPulses now =>
    unfold step PulseCounter.startListenerPulses
    cases w.counter.state.receivingEvents with
    | true => exact Nat.le_add_right ..
    | false => exact List.length_append.le
  | connect i => exact (List.length_modify ..).le
  | disconnect i => exact (List.length_modify ..).le
  | pulse value dtSecs now =>
    cases dtSecs with
    | none => exact le_rfl
    | some dtSecs => exact (List.length_map ..).le
  | _ => exact le_rfl

/-- A counter hears no pulse more often than it was started. -/
theorem heard_length_le_starts (w : Counting) (ops : List Op) (op : Op) :
    ((exec step w ops).heard op).length ≤ w.listeners.length + ops.countP Op.isStart := by
  refine (length_heard_le _ op).trans ?_
  induction ops generalizing w with
  | nil => exact Nat.le_add_right ..
  | cons first ops ih =>
    have hfirst := length_listeners_step_le w first
    have hrest := ih (w.step first)
    have hsplit : (first :: ops).countP Op.isStart =
        [first].countP Op.isStart + ops.countP Op.isStart := by
      rw [← List.countP_append]
      rfl
    rw [exec_cons]
    omega

/-! ### A counter that starts itself and is started -/

theorem started_twice :
    let w := getNewPulseCounter 0 .rising true false 0 true
    let w := exec step w [.startListenerPulses 0, .connect 0, .connect 1]
    let op := Op.pulse (some true) (some 1) fun _ => 10
    w.OutsideGrace op ∧ (step w op).counter.state.count = 2 ∧ ¬ w.CountsOnce op := by
  intro w' w op
  have hgrace : w.OutsideGrace op := by
    unfold OutsideGrace
    decide +kernel
  have htwice : w.HeardTwice op := ⟨by decide +kernel, hgrace⟩
  exact ⟨hgrace, by decide +kernel, fun h => (countsOnce_iff w op).mp h htwice⟩

end Pulses
end Counting
end Doover
