import Doover.StepRuns
import Mathlib.Data.List.Basic
import Mathlib.Tactic.Common

/-! # The shared channel of the sidecar clients

Unary requests of a sidecar client share one channel.  A call that ends in
`UNAVAILABLE` discards it and is tried once more; a call that meets its deadline
discards it and fails.  Calls overlap: while one waits for its answer others take the
shared channel, and a channel is discarded under those that still wait on it.

A channel is known by the number of channels built before it, so that a later channel
has a larger number.  `step` is one action of one call, or the opening of a channel for
a stream; `log` is what a run does, in order.

`log_of_call` reads off what one call does whatever the others do, and
`newer_after_discard` that an attempt which begins after a discard is on a newer channel
than the one discarded.
-/

namespace Doover
open StepRuns

/-- Status codes of a gRPC call. -/
inductive Code where
  | ok | cancelled | unknown | invalidArgument | deadlineExceeded | notFound | alreadyExists
  | permissionDenied | resourceExhausted | failedPrecondition | aborted | outOfRange
  | unimplemented | internal | unavailable | dataLoss | unauthenticated
deriving DecidableEq

structure Status where
  code : Code
  message : String
deriving DecidableEq

/-- A channel, by how many were built before it. -/
abbrev Channel := ℕ

namespace SharedChannel

/-- What the request comes to within the timeout of the call. -/
inductive Outcome (R : Type) where
  | response (r : R)
  | status (s : Status)
  | elapsed

/-- Which of its two attempts a call makes. -/
inductive Round where
  | first
  | retry
deriving DecidableEq

/-- Where a call stands. -/
inductive Phase (R : Type) where
  /-- About to take the shared channel. -/
  | entering (round : Round)
  | waiting (round : Round) (channel : Channel)
  /-- `call_once` met the deadline and is about to discard the channel. -/
  | expired (round : Round) (channel : Channel) (status : Status)
  /-- `call` was told `UNAVAILABLE` and is about to discard the channel. -/
  | unavailable (channel : Channel)
  | returned (result : Except Status R)

inductive Event (R : Type) where
  | began (call : ℕ) (round : Round) (channel : Channel)
  | ended (call : ℕ) (channel : Channel) (outcome : Outcome R)
  | discarded (call : ℕ) (channel : Channel)
  | returned (call : ℕ) (result : Except Status R)
  /-- A channel of its own, for a stream or a health check. -/
  | opened (channel : Channel)

inductive Action (R : Type) where
  | start
  | take (call : ℕ)
  | answer (call : ℕ) (outcome : Outcome R)
  | discard (call : ℕ)
  | freshChannel

end SharedChannel

structure SharedChannel (R : Type) where
  serviceName : String
  /-- The deadline of a call, as it is printed. -/
  timeout : String
  channel : Option Channel
  /-- Channels built so far. -/
  built : ℕ
  calls : List (SharedChannel.Phase R)

namespace SharedChannel
variable {R : Type}

def new (serviceName timeout : String) : SharedChannel R := ⟨serviceName, timeout, none, 0, []⟩

/-- Whether `call_once` discards the channel. -/
def Outcome.discards : Outcome R → Bool
  | .response _ => false
  | .status s => decide (s.code = .deadlineExceeded)
  | .elapsed => true

/-- What `call_once` returns. -/
def Outcome.result (serviceName timeout : String) : Outcome R → Except Status R
  | .response r => .ok r
  | .status s => .error s
  | .elapsed => .error ⟨.deadlineExceeded,
      "request to " ++ serviceName ++ " did not complete within " ++ timeout⟩

/-- What `call` does with the result of an attempt. -/
def Phase.ofResult (channel : Channel) : Round → Except Status R → Phase R
  | .first, .error status =>
    if status.code = .unavailable then .unavailable channel else .returned (.error status)
  | _, result => .returned result

variable (s : SharedChannel R)

/-- The channel a call is given: the shared one, built if there is none. -/
def current : Channel := s.channel.getD s.built

def take : SharedChannel R :=
  { s with channel := some s.current, built := if s.channel.isSome then s.built else s.built + 1 }

def discard : SharedChannel R := { s with channel := none }

def freshChannel : SharedChannel R := { s with built := s.built + 1 }

def setPhase (i : ℕ) (p : Phase R) : SharedChannel R := { s with calls := s.calls.set i p }

/-- The phase after the answer to an attempt. -/
def answered (round : Round) (c : Channel) (o : Outcome R) : Phase R :=
  match o.discards, o.result s.serviceName s.timeout with
  | true, .error status => .expired round c status
  | _, result => .ofResult c round result

/-- One action of one call; an action that is not the call's next leaves the client as it
is. -/
def step : Action R → SharedChannel R
  | .start => { s with calls := s.calls ++ [.entering .first] }
  | .take i =>
    match s.calls[i]? with
    | some (.entering round) => s.take.setPhase i (.waiting round s.current)
    | _ => s
  | .answer i o =>
    match s.calls[i]? with
    | some (.waiting round c) => s.setPhase i (s.answered round c o)
    | _ => s
  | .discard i =>
    match s.calls[i]? with
    | some (.expired round c status) => s.discard.setPhase i (.ofResult c round (.error status))
    | some (.unavailable _) => s.discard.setPhase i (.entering .retry)
    | _ => s
  | .freshChannel => s.freshChannel

/-- The return of a call, when this is its phase. -/
def Phase.told (i : ℕ) : Phase R → List (Event R)
  | .returned result => [.returned i result]
  | _ => []

/-- What an action does. -/
def emitted : Action R → List (Event R)
  | .start => []
  | .take i =>
    match s.calls[i]? with
    | some (.entering round) => [.began i round s.current]
    | _ => []
  | .answer i o =>
    match s.calls[i]? with
    | some (.waiting round c) => .ended i c o :: (s.answered round c o).told i
    | _ => []
  | .discard i =>
    match s.calls[i]? with
    | some (.expired round c status) =>
      .discarded i c :: (Phase.ofResult (R := R) c round (.error status)).told i
    | some (.unavailable c) => [.discarded i c]
    | _ => []
  | .freshChannel => [.opened s.built]

/-- What a run does, in order. -/
def log (as : List (Action R)) : List (Event R) := outputs step emitted s as

/-! ## One call -/

/-- The call an event is of. -/
def Event.call : Event R → Option ℕ
  | .began i _ _ | .ended i _ _ | .discarded i _ | .returned i _ => some i
  | .opened _ => none

/-- What one call does. -/
def ofCall (i : ℕ) (l : List (Event R)) : List (Event R) :=
  l.filter fun e => decide (e.call = some i)

/-- An attempt on a channel. -/
def attempted (i : ℕ) (round : Round) (c : Channel) (o : Outcome R) : List (Event R) :=
  [.began i round c, .ended i c o]

/-- The discard of `call_once`, on a deadline. -/
def expiry (i : ℕ) (c : Channel) (o : Outcome R) : List (Event R) :=
  if o.discards then [.discarded i c] else []

/-- A first attempt that loses its channel. -/
def lost (i : ℕ) (c : Channel) (status : Status) : List (Event R) :=
  attempted i .first c (.status status) ++ [.discarded i c]

def Outcome.IsUnavailable (o : Outcome R) : Prop :=
  ∃ status, o = .status status ∧ status.code = .unavailable

/-- A call from its start to its return: one attempt, or, when the first is told
`UNAVAILABLE`, a second one on a channel built later. -/
inductive Conversation (serviceName timeout : String) (i : ℕ) : List (Event R) → Prop where
  | once {c : Channel} {o : Outcome R} (served : ¬ o.IsUnavailable) :
    Conversation serviceName timeout i (attempted i .first c o ++ expiry i c o ++
      [.returned i (o.result serviceName timeout)])
  | retried {c c' : Channel} {status : Status} {o : Outcome R}
    (unavailable : status.code = .unavailable) (newer : c < c') :
    Conversation serviceName timeout i (lost i c status ++ attempted i .retry c' o ++
      expiry i c' o ++ [.returned i (o.result serviceName timeout)])

/-- What a call did before an attempt. -/
inductive Preamble (i : ℕ) : Round → List (Event R) → Prop where
  | first : Preamble i .first []
  | retry {c : Channel} {status : Status} (h : status.code = .unavailable) :
    Preamble i .retry (lost i c status)

/-- Every channel discarded so far was built before `c`. -/
def Outdates (c : Channel) (l : List (Event R)) : Prop := ∀ i d, .discarded i d ∈ l → d < c

/-- What a call has done by the time it is in a phase. -/
def Stage (serviceName timeout : String) (i : ℕ) : Option (Phase R) → List (Event R) → Prop
  | none, l => l = []
  | some (.entering round), l => Preamble i round l
  | some (.waiting round c), l =>
    ∃ p, Preamble i round p ∧ Outdates c p ∧ l = p ++ [.began i round c]
  | some (.expired round c status), l => ∃ p o, Preamble i round p ∧ Outdates c p ∧
      o.discards = true ∧ o.result serviceName timeout = .error status ∧
      l = p ++ attempted i round c o
  | some (.unavailable c), l =>
    ∃ status, status.code = .unavailable ∧ l = attempted i .first c (.status status)
  | some (.returned _), l => Conversation serviceName timeout i l

section Call
variable {serviceName timeout : String} {i : ℕ} {l : List (Event R)} {c : Channel}
  {round : Round} {o : Outcome R} {p : List (Event R)}

@[simp] theorem ofCall_append (l l' : List (Event R)) :
    ofCall i (l ++ l') = ofCall i l ++ ofCall i l' := List.filter_append ..

theorem ofCall_eq_self (h : ∀ e ∈ l, e.call = some i) : ofCall i l = l :=
  List.filter_eq_self.mpr fun e he => decide_eq_true (h e he)

theorem ofCall_eq_nil (h : ∀ e ∈ l, e.call ≠ some i) : ofCall i l = [] :=
  List.filter_eq_nil_iff.mpr fun e he => by simpa using h e he

theorem discards_of_isUnavailable (h : o.IsUnavailable) : o.discards = false := by
  obtain ⟨status, rfl, hcode⟩ := h
  rw [Outcome.discards, hcode]
  rfl

theorem conversation_concat (hp : Preamble i round p) (hold : Outdates c p)
    (hserved : round = .first → ¬ o.IsUnavailable) :
    Conversation serviceName timeout i
      (p ++ attempted i round c o ++ expiry i c o ++ [.returned i (o.result serviceName timeout)]) := by
  cases hp with
  | first => exact .once (hserved rfl)
  | retry h => exact .retried h (hold i _ (by simp [lost]))

/-- The phase an attempt's result leads to, once nothing is left to discard. -/
theorem stage_ofResult (hp : Preamble i round p) (hold : Outdates c p)
    (hl : l = p ++ attempted i round c o ++ expiry i c o) :
    Stage serviceName timeout i (some (.ofResult c round (o.result serviceName timeout)))
      (l ++ (Phase.ofResult c round (o.result serviceName timeout)).told i) := by
  by_cases hun : round = .first ∧ o.IsUnavailable
  · obtain ⟨rfl, status, rfl, hcode⟩ := hun
    cases hp
    have hd := discards_of_isUnavailable (R := R) ⟨status, rfl, hcode⟩
    simp only [Outcome.result, Phase.ofResult, if_pos hcode, Phase.told, List.append_nil]
    exact ⟨status, hcode, by simp [hl, expiry, hd]⟩
  · have hreturned : Phase.ofResult c round (o.result serviceName timeout) =
        .returned (o.result serviceName timeout) := by
      cases round with
      | retry => rfl
      | first =>
        cases o with
        | response r => rfl
        | elapsed => rfl
        | status s => exact if_neg fun hcode => hun ⟨rfl, s, rfl, hcode⟩
    rw [hreturned, Phase.told, hl]
    exact conversation_concat hp hold fun hround hun' => hun ⟨hround, hun'⟩

theorem told_call (i : ℕ) (phase : Phase R) : ∀ e ∈ phase.told i, e.call = some i := by
  intro e he
  cases phase with
  | returned result => rw [List.mem_singleton.mp he, Event.call]
  | _ => cases he

end Call

/-! ## One action -/

/-- What one action may do, to the client and in the log. -/
inductive Moved (s : SharedChannel R) : SharedChannel R → List (Event R) → Prop where
  | idle : Moved s s []
  | start : Moved s { s with calls := s.calls ++ [.entering .first] } []
  | take {i : ℕ} {round : Round} (h : s.calls[i]? = some (.entering round)) :
    Moved s (s.take.setPhase i (.waiting round s.current)) [.began i round s.current]
  | answer {i : ℕ} {round : Round} {c : Channel} {o : Outcome R}
    (h : s.calls[i]? = some (.waiting round c)) :
    Moved s (s.setPhase i (s.answered round c o)) (.ended i c o :: (s.answered round c o).told i)
  | expire {i : ℕ} {round : Round} {c : Channel} {status : Status}
    (h : s.calls[i]? = some (.expired round c status)) :
    Moved s (s.discard.setPhase i (.ofResult c round (.error status)))
      (.discarded i c :: (Phase.ofResult (R := R) c round (.error status)).told i)
  | unavailable {i : ℕ} {c : Channel} (h : s.calls[i]? = some (.unavailable c)) :
    Moved s (s.discard.setPhase i (.entering .retry)) [.discarded i c]
  | fresh : Moved s s.freshChannel [.opened s.built]

theorem moved (a : Action R) : Moved s (s.step a) (s.emitted a) := by
  cases a with
  | start => exact .start
  | freshChannel => exact .fresh
  | take i =>
    rw [step, emitted]
    split
    · exact .take ‹_›
    · exact .idle
  | answer i o =>
    rw [step, emitted]
    split
    · exact .answer ‹_›
    · exact .idle
  | discard i =>
    rw [step, emitted]
    split
    · exact .expire ‹_›
    · exact .unavailable ‹_›
    · exact .idle

/-- Where each call stands, by what it has done. -/
def Staged (l : List (Event R)) : Prop :=
  ∀ i, Stage s.serviceName s.timeout i s.calls[i]? (ofCall i l)

section Staged
variable {s} {l l' : List (Event R)} {i : ℕ}

theorem staged_set (h : s.Staged l) {s' : SharedChannel R} {phase old : Phase R}
    (hcalls : s'.calls = s.calls.set i phase) (hname : s'.serviceName = s.serviceName)
    (htimeout : s'.timeout = s.timeout) (hold : s.calls[i]? = some old)
    (hl' : ∀ e ∈ l', e.call = some i)
    (hstage : Stage s.serviceName s.timeout i (some phase) (ofCall i l ++ l')) :
    s'.Staged (l ++ l') := by
  intro j
  rw [hcalls, hname, htimeout, ofCall_append]
  by_cases hj : i = j
  · subst hj
    rw [List.getElem?_set_self (List.getElem?_eq_some_iff.mp hold).1, ofCall_eq_self hl']
    exact hstage
  · have hnil : ofCall j l' = [] := by
      apply ofCall_eq_nil
      intro e he
      rw [hl' e he]
      exact fun h => hj (Option.some.inj h)
    rw [List.getElem?_set_ne hj, hnil, List.append_nil]
    exact h j

theorem staged_start (h : s.Staged l) :
    Staged { s with calls := s.calls ++ [.entering .first] } l := by
  intro j
  have hj := h j
  rcases Nat.lt_trichotomy j s.calls.length with hlt | rfl | hgt
  · rwa [List.getElem?_append_left hlt]
  · rw [List.getElem?_eq_none (Nat.le_refl _)] at hj
    rw [List.getElem?_concat_length]
    exact (show ofCall s.calls.length l = [] from hj) ▸ Preamble.first
  · rw [List.getElem?_eq_none (Nat.le_of_lt hgt)] at hj
    rw [List.getElem?_eq_none (by simpa using Nat.succ_le_of_lt hgt)]
    exact hj

theorem answered_cases (s : SharedChannel R) (round : Round) (c : Channel) (o : Outcome R) :
    (o.discards = true ∧ ∃ status, o.result s.serviceName s.timeout = .error status ∧
      s.answered round c o = .expired round c status) ∨
    o.discards = false ∧
      s.answered round c o = .ofResult c round (o.result s.serviceName s.timeout) := by
  cases o with
  | response r => exact .inr ⟨rfl, rfl⟩
  | elapsed => exact .inl ⟨rfl, _, rfl, rfl⟩
  | status st =>
    cases hd : (Outcome.status (R := R) st).discards with
    | true => exact .inl ⟨rfl, st, rfl, by rw [answered, hd]; rfl⟩
    | false => exact .inr ⟨rfl, by rw [answered, hd]⟩

/-- A call that begins on a channel built after every discarded one keeps to its stages,
whatever its next action. -/
theorem staged_moved {s' : SharedChannel R} (h : s.Staged l) (hold : Outdates s.current l)
    (hm : Moved s s' l') : s'.Staged (l ++ l') := by
  cases hm with
  | idle => rwa [List.append_nil]
  | start =>
    rw [List.append_nil]
    exact staged_start h
  | fresh =>
    intro i
    rw [ofCall_append, ofCall_eq_nil (l := [.opened s.built]) (by simp [Event.call]), List.append_nil]
    exact h i
  | @take i round hi =>
    refine staged_set h rfl rfl rfl hi (by simp [Event.call]) ?_
    have hpre : Stage _ _ i (some (.entering round)) (ofCall i l) := hi ▸ h i
    exact ⟨_, hpre, fun j d hd => hold j d (List.mem_of_mem_filter hd), rfl⟩
  | @answer i round c o hi =>
    obtain ⟨p, hp, hpold, hl⟩ : Stage _ _ i (some (.waiting round c)) (ofCall i l) := hi ▸ h i
    refine staged_set h rfl rfl rfl hi ?_ ?_
    · rintro e (_ | ⟨_, he⟩)
      · rfl
      · exact told_call i _ e he
    rcases answered_cases s round c o with ⟨hd, status, hstatus, hphase⟩ | ⟨hd, hphase⟩
    · rw [hphase, hl]
      exact ⟨p, o, hp, hpold, hd, hstatus, by simp [attempted, Phase.told]⟩
    · rw [hphase, hl]
      have hl' : p ++ [.began i round c] ++ [.ended i c o] =
          p ++ attempted i round c o ++ expiry i c o := by simp [attempted, expiry, hd]
      have hended : Stage s.serviceName s.timeout i _ _ := stage_ofResult hp hpold hl'
      rwa [List.append_assoc] at hended
  | @expire i round c status hi =>
    obtain ⟨p, o, hp, hpold, hd, hstatus, hl⟩ :
      Stage _ _ i (some (.expired round c status)) (ofCall i l) := hi ▸ h i
    refine staged_set h rfl rfl rfl hi ?_ ?_
    · rintro e (_ | ⟨_, he⟩)
      · rfl
      · exact told_call i _ e he
    have hl' : ofCall i l ++ [.discarded i c] = p ++ attempted i round c o ++ expiry i c o := by
      simp [hl, expiry, hd]
    have hended : Stage s.serviceName s.timeout i _ _ := stage_ofResult hp hpold hl'
    rw [hstatus] at hended
    rwa [List.append_assoc] at hended
  | @unavailable i c hi =>
    obtain ⟨status, hcode, hl⟩ : Stage _ _ i (some (.unavailable c)) (ofCall i l) := hi ▸ h i
    refine staged_set h rfl rfl rfl hi (by simp [Event.call]) ?_
    rw [hl]
    exact Preamble.retry hcode

end Staged

/-! ## Channels -/

def Event.channel : Event R → Option Channel
  | .began _ _ c | .ended _ c _ | .discarded _ c | .opened c => some c
  | .returned _ _ => none

/-- After a discard only a channel built later is begun on. -/
def Renews (e e' : Event R) : Prop :=
  ∀ i c j round d, e = .discarded i c → e' = .began j round d → c < d

/-- What the shared channel and the log have to do with each other. -/
structure Ordered (l : List (Event R)) : Prop where
  built : ∀ e ∈ l, ∀ c, e.channel = some c → c < s.built
  shared : ∀ c, s.channel = some c → c < s.built
  outdates : Outdates s.current l
  unshared : ∀ c, .opened c ∈ l → c ≠ s.current ∧ ∀ i round, .began i round c ∉ l
  renews : l.Pairwise Renews

/-- An event that neither begins an attempt nor opens a channel. -/
def Event.IsLate : Event R → Prop
  | .began _ _ _ | .opened _ => False
  | _ => True

section Ordered
variable {s} {l l' : List (Event R)} {i : ℕ} {c : Channel}

theorem current_of_none (h : s.channel = none) : s.current = s.built := by rw [current, h]; rfl

theorem current_of_some (h : s.channel = some c) : s.current = c := by rw [current, h]; rfl

theorem Ordered.current_le (h : s.Ordered l) : s.current ≤ s.built := by
  cases hc : s.channel with
  | none => exact Nat.le_of_eq (current_of_none hc)
  | some c => exact current_of_some hc ▸ Nat.le_of_lt (h.shared c hc)

/-- What an attempt has come to is told without a new channel. -/
theorem ordered_late (h : s.Ordered l) (hlate : ∀ e ∈ l', e.IsLate)
    (hbuilt : ∀ e ∈ l', ∀ c, e.channel = some c → c < s.built) {s' : SharedChannel R}
    (hs' : s'.built = s.built) (hshared : ∀ c, s'.channel = some c → c < s.built)
    (houtdates : Outdates s'.current (l ++ l')) (hopened : ∀ c, .opened c ∈ l → c ≠ s'.current) :
    s'.Ordered (l ++ l') := by
  have hbegan : ∀ i round c, .began i round c ∈ l ++ l' → .began i round c ∈ l := by
    intro i round c hmem
    exact (List.mem_append.mp hmem).resolve_right fun hl' => hlate _ hl'
  refine ⟨?_, hs' ▸ hshared, houtdates, ?_, ?_⟩
  · intro e he c hc
    rw [hs']
    rcases List.mem_append.mp he with he | he
    · exact h.built e he c hc
    · exact hbuilt e he c hc
  · intro c hc
    have hcl := (List.mem_append.mp hc).resolve_right fun hl' => hlate _ hl'
    exact ⟨hopened c hcl, fun i round hmem => (h.unshared c hcl).2 i round (hbegan i round c hmem)⟩
  · refine List.pairwise_append.mpr ⟨h.renews, ?_, ?_⟩
    · refine List.pairwise_of_forall_mem_list ?_
      intro e _ e' he' i c j round d _ hd
      subst hd
      exact False.elim (hlate _ he')
    · intro e _ e' he' i c j round d _ hd
      subst hd
      exact False.elim (hlate _ he')

theorem ordered_take (h : s.Ordered l) (round : Round) (phase : Phase R) :
    (s.take.setPhase i phase).Ordered (l ++ [.began i round s.current]) := by
  have hcurrent : (s.take.setPhase i phase).current = s.current := rfl
  have hbuilt : s.current < (s.take.setPhase i phase).built ∧
      s.built ≤ (s.take.setPhase i phase).built := by
    rw [setPhase, take]
    cases hc : s.channel with
    | none => exact ⟨by simp [current_of_none hc], by simp⟩
    | some c => exact ⟨by simpa [current_of_some hc] using h.shared c hc, by simp⟩
  refine ⟨?_, ?_, ?_, ?_, ?_⟩
  · intro e he c hc
    rcases List.mem_append.mp he with he | he
    · exact Nat.lt_of_lt_of_le (h.built e he c hc) hbuilt.2
    · rw [List.mem_singleton.mp he] at hc
      exact Option.some.inj hc ▸ hbuilt.1
  · intro c hc
    exact Option.some.inj hc ▸ hbuilt.1
  · intro j d hd
    rw [hcurrent]
    rcases List.mem_append.mp hd with hd | hd
    · exact h.outdates j d hd
    · cases List.mem_singleton.mp hd
  · intro c hc
    have hcl : .opened c ∈ l := by
      rcases List.mem_append.mp hc with hc | hc
      · exact hc
      · cases List.mem_singleton.mp hc
    refine ⟨(h.unshared c hcl).1, ?_⟩
    intro j r hmem
    rcases List.mem_append.mp hmem with hmem | hmem
    · exact (h.unshared c hcl).2 j r hmem
    · cases List.mem_singleton.mp hmem
      exact (h.unshared _ hcl).1 rfl
  · refine List.pairwise_append.mpr ⟨h.renews, List.pairwise_singleton _ _, ?_⟩
    intro e he e' he' j c k r d hc hd
    subst hc
    cases List.mem_singleton.mp he'
    cases hd
    exact h.outdates j c he

theorem ordered_fresh (h : s.Ordered l) : s.freshChannel.Ordered (l ++ [.opened s.built]) := by
  have hcurrent : s.current ≤ s.freshChannel.current ∧ s.built ≠ s.freshChannel.current := by
    cases hc : s.channel with
    | none =>
      rw [current_of_none hc, current_of_none (s := s.freshChannel) hc]
      exact ⟨Nat.le_succ _, Nat.ne_of_lt (Nat.lt_succ_self _)⟩
    | some c =>
      rw [current_of_some hc, current_of_some (s := s.freshChannel) hc]
      exact ⟨Nat.le_refl c, Nat.ne_of_gt (h.shared c hc)⟩
  refine ⟨?_, ?_, ?_, ?_, ?_⟩
  · intro e he c hc
    rcases List.mem_append.mp he with he | he
    · exact Nat.lt_succ_of_lt (h.built e he c hc)
    · rw [List.mem_singleton.mp he] at hc
      exact Option.some.inj hc ▸ Nat.lt_succ_self s.built
  · exact fun c hc => Nat.lt_succ_of_lt (h.shared c hc)
  · intro j d hd
    rcases List.mem_append.mp hd with hd | hd
    · exact Nat.lt_of_lt_of_le (h.outdates j d hd) hcurrent.1
    · cases List.mem_singleton.mp hd
  · intro c hc
    have hbegan : ∀ i round, .began i round c ∈ l ++ [.opened s.built] → .began i round c ∈ l := by
      intro i round hmem
      rcases List.mem_append.mp hmem with hmem | hmem
      · exact hmem
      · cases List.mem_singleton.mp hmem
    rcases List.mem_append.mp hc with hc | hc
    · refine ⟨?_, fun i round hmem => (h.unshared c hc).2 i round (hbegan i round hmem)⟩
      cases hs : s.channel with
      | none =>
        rw [current_of_none (s := s.freshChannel) hs]
        exact Nat.ne_of_lt (Nat.lt_succ_of_lt (h.built _ hc c rfl))
      | some d =>
        rw [current_of_some (s := s.freshChannel) hs]
        exact current_of_some hs ▸ (h.unshared c hc).1
    · cases List.mem_singleton.mp hc
      refine ⟨hcurrent.2, fun i round hmem => ?_⟩
      exact Nat.lt_irrefl _ (h.built _ (hbegan i round hmem) s.built rfl)
  · refine List.pairwise_append.mpr ⟨h.renews, List.pairwise_singleton _ _, ?_⟩
    intro e _ e' he' j c k r d _ hd
    cases List.mem_singleton.mp he'
    cases hd

theorem told_isLate (phase : Phase R) : ∀ e ∈ phase.told i, e.IsLate ∧ e.channel = none := by
  intro e he
  cases phase with
  | returned result =>
    rw [List.mem_singleton.mp he]
    exact ⟨trivial, rfl⟩
  | _ => cases he

/-- A call that waits on a channel, or is about to discard it, began on it. -/
theorem Staged.began_mem (h : s.Staged l) {phase : Phase R} (hi : s.calls[i]? = some phase)
    (hphase : (∃ round, phase = .waiting round c) ∨ (∃ round status, phase = .expired round c status) ∨
      phase = .unavailable c) : ∃ round, .began i round c ∈ l := by
  have hstage := hi ▸ h i
  obtain ⟨round, hmem⟩ : ∃ round, .began i round c ∈ ofCall i l := by
    rcases hphase with ⟨round, rfl⟩ | ⟨round, status, rfl⟩ | rfl
    · obtain ⟨p, -, -, hl⟩ := hstage
      exact ⟨round, by simp [hl]⟩
    · obtain ⟨p, o, -, -, -, -, hl⟩ := hstage
      exact ⟨round, by simp [hl, attempted]⟩
    · obtain ⟨status, -, hl⟩ := hstage
      exact ⟨.first, by simp [hl, attempted]⟩
  exact ⟨round, List.mem_of_mem_filter hmem⟩

theorem ordered_moved {s' : SharedChannel R} (h : s.Ordered l) (hstaged : s.Staged l)
    (hm : Moved s s' l') : s'.Ordered (l ++ l') := by
  cases hm with
  | idle => rwa [List.append_nil]
  | start =>
    rw [List.append_nil]
    exact ⟨h.built, h.shared, h.outdates, h.unshared, h.renews⟩
  | take hi => exact ordered_take h _ _
  | fresh => exact ordered_fresh h
  | @answer i round c o hi =>
    obtain ⟨r, hbegan⟩ := hstaged.began_mem hi (.inl ⟨round, rfl⟩)
    have htold := told_isLate (i := i) (s.answered round c o)
    refine ordered_late h ?_ ?_ rfl h.shared ?_ fun d hd => (h.unshared d hd).1
    · rintro e (_ | ⟨_, he⟩)
      · exact trivial
      · exact (htold e he).1
    · rintro e (_ | ⟨_, he⟩) d hd
      · exact Option.some.inj hd ▸ h.built _ hbegan c rfl
      · rw [(htold e he).2] at hd
        cases hd
    · intro j d hd
      rcases List.mem_append.mp hd with hd | _ | ⟨_, hd⟩
      · exact h.outdates j d hd
      · have hnone := (htold _ hd).2
        cases hnone
  | @expire i round c status hi =>
    obtain ⟨r, hbegan⟩ := hstaged.began_mem hi (.inr (.inl ⟨round, status, rfl⟩))
    have hc := h.built _ hbegan c rfl
    have htold := told_isLate (R := R) (i := i) (Phase.ofResult c round (.error status))
    refine ordered_late h ?_ ?_ rfl (fun _ h => by cases h) ?_ fun d hd => ?_
    · rintro e (_ | ⟨_, he⟩)
      · exact trivial
      · exact (htold e he).1
    · rintro e (_ | ⟨_, he⟩) d hd
      · exact Option.some.inj hd ▸ hc
      · rw [(htold e he).2] at hd
        cases hd
    · intro j d hd
      rcases List.mem_append.mp hd with hd | _ | ⟨_, hd⟩
      · exact Nat.lt_of_lt_of_le (h.outdates j d hd) h.current_le
      · exact hc
      · have hnone := (htold _ hd).2
        cases hnone
    · exact Nat.ne_of_lt (h.built _ hd d rfl)
  | @unavailable i c hi =>
    obtain ⟨r, hbegan⟩ := hstaged.began_mem hi (.inr (.inr rfl))
    have hc := h.built _ hbegan c rfl
    refine ordered_late h ?_ ?_ rfl (fun _ h => by cases h) ?_ fun d hd => ?_
    · intro e he
      rw [List.mem_singleton.mp he]
      exact trivial
    · intro e he d hd
      rw [List.mem_singleton.mp he] at hd
      exact Option.some.inj hd ▸ hc
    · intro j d hd
      rcases List.mem_append.mp hd with hd | hd
      · exact Nat.lt_of_lt_of_le (h.outdates j d hd) h.current_le
      · cases List.mem_singleton.mp hd
        exact hc
    · exact Nat.ne_of_lt (h.built _ hd d rfl)

end Ordered

/-! ## Runs -/

section Runs
variable (serviceName timeout : String)

theorem names_moved {s' : SharedChannel R} {l' : List (Event R)} (hm : Moved s s' l') :
    s'.serviceName = s.serviceName ∧ s'.timeout = s.timeout := by cases hm <;> exact ⟨rfl, rfl⟩

theorem names_run (as : List (Action R)) :
    (exec step (new serviceName timeout) as).serviceName = serviceName ∧
      (exec step (new serviceName timeout) as).timeout = timeout := by
  refine exec_invariant step (I := fun s => s.serviceName = serviceName ∧ s.timeout = timeout)
    ⟨rfl, rfl⟩ ?_
  intro s ⟨hname, htimeout⟩ a _
  obtain ⟨hname', htimeout'⟩ := s.names_moved (s.moved a)
  exact ⟨hname'.trans hname, htimeout'.trans htimeout⟩

/-- In every run the calls keep to their stages and the channels to their order. -/
theorem sound_run (as : List (Action R)) :
    (exec step (new serviceName timeout) as).Staged ((new serviceName timeout).log as) ∧
      (exec step (new serviceName timeout) as).Ordered ((new serviceName timeout).log as) := by
  let I : SharedChannel R → List (Event R) → Prop := fun s l => s.Staged l ∧ s.Ordered l
  have hinit : I (new serviceName timeout) [] := by
    refine ⟨fun i => rfl, ⟨?_, ?_, ?_, ?_, List.Pairwise.nil⟩⟩
    · exact fun e he => absurd he List.not_mem_nil
    · exact fun c hc => by cases hc
    · exact fun i d hd => absurd hd List.not_mem_nil
    · exact fun c hc => absurd hc List.not_mem_nil
  refine outputs_invariant step emitted (I := I) as hinit ?_
  intro s l ⟨hstaged, hordered⟩ a _
  have hm := s.moved a
  exact ⟨staged_moved hstaged hordered.outdates hm, ordered_moved hordered hstaged hm⟩

theorem outdates_preamble {i : ℕ} {round : Round} {p : List (Event R)} (hp : Preamble i round p) :
    ∃ c, Outdates c p := by
  cases hp with
  | first => exact ⟨0, fun j d hd => absurd hd List.not_mem_nil⟩
  | @retry c status h =>
    refine ⟨c + 1, fun j d hd => ?_⟩
    have hdc : d = c := by
      simp only [lost, attempted, List.cons_append, List.nil_append, List.mem_cons, reduceCtorEq,
        Event.discarded.injEq, List.not_mem_nil, or_false, false_or] at hd
      exact hd.2
    exact hdc ▸ Nat.lt_succ_self d

theorem not_isUnavailable_of_discards {o : Outcome R} (h : o.discards = true) : ¬ o.IsUnavailable :=
  fun hun => Bool.false_ne_true ((discards_of_isUnavailable hun).symm.trans h)

/-- What a call has done is the beginning of a whole call. -/
theorem conversation_of_stage {serviceName timeout : String} {i : ℕ} {phase : Option (Phase R)} {l : List (Event R)}
    (h : Stage serviceName timeout i phase l) :
    ∃ conv, Conversation serviceName timeout i conv ∧ l <+: conv ∧
      ∀ result, phase = some (.returned result) → l = conv := by
  have helapsed : ¬ (Outcome.elapsed (R := R)).IsUnavailable := not_isUnavailable_of_discards rfl
  rcases phase with - | phase
  · have hl : l = [] := h
    exact ⟨_, .once helapsed (c := 0), hl ▸ List.nil_prefix, fun _ h => by cases h⟩
  cases phase with
  | entering round =>
    have hp : Preamble i round l := h
    obtain ⟨c, hold⟩ := outdates_preamble hp
    refine ⟨_, conversation_concat hp hold fun _ => helapsed, ?_, fun _ h => by cases h⟩
    simp only [List.append_assoc]
    exact List.prefix_append _ _
  | waiting round c =>
    obtain ⟨p, hp, hold, rfl⟩ := h
    refine ⟨_, conversation_concat hp hold fun _ => helapsed, ?_, fun _ h => by cases h⟩
    simp only [attempted, List.append_assoc, List.cons_append]
    exact (List.prefix_append_right_inj p).mpr (by simp)
  | expired round c status =>
    obtain ⟨p, o, hp, hold, hd, -, rfl⟩ := h
    refine ⟨_, conversation_concat hp hold fun _ => not_isUnavailable_of_discards hd, ?_,
      fun _ h => by cases h⟩
    rw [List.append_assoc (p ++ attempted i round c o)]
    exact List.prefix_append _ _
  | unavailable c =>
    obtain ⟨status, hcode, rfl⟩ := h
    refine ⟨_, .retried hcode (Nat.lt_succ_self c) (o := .elapsed), ?_, fun _ h => by cases h⟩
    simp only [lost, List.append_assoc]
    exact List.prefix_append _ _
  | returned result => exact ⟨l, h, List.prefix_rfl, fun _ _ => rfl⟩

/-- **One call among many.**  Whatever other calls do, a call does what it would do by
itself: it makes one attempt, or a second one after `UNAVAILABLE`, on a channel built
after the first was discarded, and returns what its last attempt came to. -/
theorem log_of_call (as : List (Action R)) (i : ℕ) :
    ∃ conv, Conversation serviceName timeout i conv ∧
      ofCall i ((new serviceName timeout).log as) <+: conv ∧
      ∀ result, (exec step (new serviceName timeout) as).calls[i]? = some (.returned result) →
        ofCall i ((new serviceName timeout).log as) = conv := by
  have hstage := (sound_run serviceName timeout as).1 i
  obtain ⟨hname, htimeout⟩ := names_run (R := R) serviceName timeout as
  rw [hname, htimeout] at hstage
  exact conversation_of_stage hstage

theorem newer_after_discard {as : List (Action R)} {l₁ l₂ : List (Event R)} {i j : ℕ}
    {round : Round} {c d : Channel}
    (hlog : (new serviceName timeout).log as = l₁ ++ l₂) (hc : .discarded i c ∈ l₁)
    (hd : .began j round d ∈ l₂) : c < d := by
  have hrenews := (sound_run serviceName timeout as).2.renews
  rw [hlog] at hrenews
  exact (List.pairwise_append.mp hrenews).2.2 _ hc _ hd i c j round d rfl rfl

theorem discards_of_deadline {o : Outcome R} {status : Status}
    (h : o.result serviceName timeout = .error status) (hcode : status.code = .deadlineExceeded) :
    o.discards = true := by
  cases o with
  | response r => cases h
  | elapsed => rfl
  | status s =>
    cases h
    exact decide_eq_true hcode

/-- A call that returned did nothing after its return, and all of its conversation before. -/
theorem eq_of_append_returned {i : ℕ} {x y body : List (Event R)} {result result' : Except Status R}
    (hbody : ∀ r, .returned i r ∉ body)
    (h : x ++ .returned i result :: y <+: body ++ [.returned i result']) :
    x = body ∧ result = result' := by
  obtain ⟨z, hz⟩ := h
  rw [List.append_assoc, List.cons_append] at hz
  rcases List.eq_nil_or_concat (y ++ z) with hnil | ⟨w, e, hw⟩
  · rw [hnil] at hz
    obtain ⟨hx, he⟩ := List.append_inj' hz rfl
    cases he
    exact ⟨hx, rfl⟩
  · rw [hw, List.concat_eq_append, ← List.cons_append, ← List.append_assoc] at hz
    have hx := (List.append_inj' hz rfl).1
    exact absurd (hx ▸ List.mem_append_right x List.mem_cons_self) (hbody result)

/-- When a call returns a deadline error, the last channel it used is discarded and no
other that it used was built later. -/
theorem deadline_returned {as : List (Action R)} {l₁ l₂ : List (Event R)} {i : ℕ} {status : Status}
    (hcode : status.code = .deadlineExceeded)
    (hlog : (new serviceName timeout).log as = l₁ ++ .returned i (.error status) :: l₂) :
    ∃ last, .discarded i last ∈ l₁ ∧ ∀ round c, .began i round c ∈ l₁ → c ≤ last := by
  have hmem : ∀ {e : Event R}, e.call = some i → (e ∈ ofCall i l₁ ↔ e ∈ l₁) := by
    intro e he
    simp [ofCall, he]
  obtain ⟨conv, hconv, hsub, -⟩ := log_of_call serviceName timeout as i
  have hreturned : ofCall i (Event.returned i (.error status) :: l₂) =
      .returned i (.error status) :: ofCall i l₂ := List.filter_cons_of_pos (by simp [Event.call])
  rw [hlog, ofCall_append, hreturned] at hsub
  cases hconv with
  | @once c o served =>
    obtain ⟨hl₁, hresult⟩ := eq_of_append_returned (by
      intro r
      rw [expiry]
      split <;> simp [attempted]) hsub
    have hd := discards_of_deadline serviceName timeout hresult.symm hcode
    refine ⟨c, (hmem rfl).mp (by simp [hl₁, expiry, hd]), ?_⟩
    intro round c' hc'
    have hc'' := (hmem rfl).mpr hc'
    simp only [hl₁, attempted, expiry, hd, if_true, List.cons_append, List.nil_append, List.mem_cons,
      Event.began.injEq, reduceCtorEq, List.not_mem_nil, or_false] at hc''
    exact Nat.le_of_eq hc''.2.2
  | @retried c last st o hun newer =>
    obtain ⟨hl₁, hresult⟩ := eq_of_append_returned (by
      intro r
      rw [expiry]
      split <;> simp [attempted, lost]) hsub
    have hd := discards_of_deadline serviceName timeout hresult.symm hcode
    refine ⟨last, (hmem rfl).mp (by simp [hl₁, expiry, hd]), ?_⟩
    intro round c' hc'
    have hc'' := (hmem rfl).mpr hc'
    simp only [hl₁, lost, attempted, expiry, hd, if_true, List.cons_append, List.nil_append,
      List.mem_cons, Event.began.injEq, reduceCtorEq, List.not_mem_nil, or_false, false_or] at hc''
    rcases hc'' with ⟨-, -, rfl⟩ | ⟨-, -, rfl⟩
    · exact Nat.le_of_lt newer
    · exact Nat.le_refl c'

/-- **A wedged channel is left behind.**  Once a call has returned a deadline error, every
attempt of any call that begins later is on a channel built after those the call used,
and none is ever on a channel opened for a stream. -/
theorem newer_after_deadline {as : List (Action R)} {l₁ l₂ : List (Event R)} {i j : ℕ}
    {status : Status} {round r : Round} {c d : Channel} (hcode : status.code = .deadlineExceeded)
    (hlog : (new serviceName timeout).log as = l₁ ++ .returned i (.error status) :: l₂)
    (hc : .began i round c ∈ l₁) (hd : .began j r d ∈ l₂) :
    c < d ∧ .opened d ∉ (new serviceName timeout).log as := by
  obtain ⟨last, hdiscarded, hlast⟩ := deadline_returned serviceName timeout hcode hlog
  refine ⟨Nat.lt_of_le_of_lt (hlast round c hc) ?_, fun hopened => ?_⟩
  · exact newer_after_discard serviceName timeout hlog hdiscarded (List.mem_cons_of_mem _ hd)
  · refine ((sound_run serviceName timeout as).2.unshared d hopened).2 j r ?_
    rw [hlog]
    exact List.mem_append_right l₁ (List.mem_cons_of_mem _ hd)

/-- A call times out and another begins. -/
def timeoutThenNext : List (Action Unit) :=
  [.start, .take 0, .freshChannel, .answer 0 .elapsed, .discard 0, .start, .take 1]

theorem timeout_then_newer : 0 < 2 ∧
    .opened 2 ∉ (new "doover.PlatformInterface" "7s").log timeoutThenNext := by
  have hlog : (new "doover.PlatformInterface" "7s").log timeoutThenNext =
      [.began 0 .first 0, .opened 1, .ended 0 0 .elapsed, .discarded 0 0] ++
        .returned 0 (.error ⟨.deadlineExceeded,
          "request to doover.PlatformInterface did not complete within 7s"⟩) ::
        [.began 1 .first 2] := rfl
  exact newer_after_deadline _ _ rfl hlog List.mem_cons_self List.mem_cons_self

end Runs
end SharedChannel
end Doover
