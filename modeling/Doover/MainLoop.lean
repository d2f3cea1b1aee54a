import Doover.ProcessorTags
import Doover.StepRuns
import Doover.TagsSequential

/-! # The main loop and the healthcheck

The runner takes one thing at a time: a stop signal, an event for the app or the next turn of
the loop.  A turn is the app's `main_loop` followed by the commit of what it has set, and the
first turn that fails is the last: the runner waits and exits with its error.

The container asks the healthcheck server from another process, from before the runner has
connected until it is gone, so also while it starts, waits or shuts down.  All that the server
is told is a flag, which the loop sets.  So for as long as it is this server that answers, it
says `200` exactly if a turn was completed and none has failed; and right after a turn in which
no other task sets a tag it says so only if the commit has left the tag manager clean
(`probe_ok_iff`).  That does not mean that every tag was sent: a flushing write that fails is
not tried again.
-/

namespace Doover
open Json StepRuns

/-! ## The healthcheck -/

def RESPONSE_OK : String :=
  "HTTP/1.1 200 OK\r\ncontent-type: text/plain\r\ncontent-length: 2\r\nconnection: close\r\n\r\nOK"

def RESPONSE_ERROR : String :=
  "HTTP/1.1 503 Service Unavailable\r\ncontent-type: text/plain\r\ncontent-length: 5\r\nconnection: close\r\n\r\nERROR"

/-- Ask the server on `addr` once, given what comes of the connection; the answer is quoted by
`debug`. -/
def probe (addr : String) (debug : List Char → String) (connection : Except String String) :
    Except String Unit :=
  match connection with
  | .error e => .error (addr ++ ": " ++ e)
  | .ok answer =>
    let head := answer.toList.take 12
    if head.length < 12 then .error (addr ++ ": failed to fill whole buffer")
    else if "HTTP/1.".toList.isPrefixOf head && head.drop 9 == "200".toList then .ok ()
    else .error (addr ++ " answered " ++ debug head)

theorem probe_ok (addr : String) (debug : List Char → String) :
    probe addr debug (.ok RESPONSE_OK) = .ok () := rfl

theorem probe_error (addr : String) (debug : List Char → String) :
    ∃ e, probe addr debug (.ok RESPONSE_ERROR) = .error e :=
  ⟨_, rfl⟩

namespace MainLoop

/-! ## One turn -/

/-- A `set_tag` of the app, with the answer to its RPC if it makes one. -/
structure SetCall where
  appKey : String
  key : String
  value : Json
  opts : SetTagOptions
  rpc : Bool

/-- What the app sets, one call after the other. -/
def setAll (st : TagsState) (calls : List SetCall) : TagsState :=
  calls.foldl (fun st c => (st.setTagCall c.appKey c.key c.value c.opts c.rpc).st) st

/-- What a turn of the loop meets. -/
structure Turn where
  /-- What `main_loop` sets. -/
  sets : List SetCall
  /-- What `main_loop` returns. -/
  result : Except DooverError Unit
  commit : CommitEnv
  /-- The error of a commit that fails. -/
  commitError : DooverError

def Turn.run (t : Turn) (st : TagsState) : TagsState × Except DooverError Unit :=
  let st := setAll st t.sets
  match t.result with
  | .ok () =>
    let o := st.commitTagsCall t.commit
    (o.st, if o.ok then .ok () else .error t.commitError)
  | .error e => (st, .error e)

/-! ## The runner -/

inductive Phase where
  /-- Until the main loop: connecting, the config, the app's setup. -/
  | starting
  | running
  /-- A stop signal has come, and the app shuts down. -/
  | stopping
  /-- The setup or the loop has failed; the runner waits before it exits. -/
  | waiting (e : DooverError)
  | exited (result : Except DooverError Unit)

structure Runner where
  phase : Phase
  healthy : Bool
  tags : TagsState

inductive Action where
  /-- The app is set up. -/
  | ready
  /-- What comes before the setup has failed. -/
  | startFails (e : DooverError)
  | setupFails (e : DooverError)
  /-- The ticker is due. -/
  | turn (t : Turn)
  /-- An event for the app, whose handler sets tags; an error of it is logged. -/
  | event (sets : List SetCall)
  /-- A stop signal, on which the app may set tags once more. -/
  | stop (sets : List SetCall)
  | shutDown
  /-- The wait is over. -/
  | waited
  /-- Another task of the app sets tags, such as an RPC handler. -/
  | aside (sets : List SetCall)
  /-- The agent tells of the tags. -/
  | tagEvent (ev : Event)
  /-- The agent tells who is watching. -/
  | uiEvent (ev : Event)

/-- The runner once its healthcheck server is up. -/
def start (tags : TagsState) : Runner := ⟨.starting, false, tags⟩

def step (r : Runner) (a : Action) : Runner :=
  match r.phase, a with
  | .starting, .ready => { r with phase := .running }
  | .starting, .startFails e => { r with phase := .exited (.error e) }
  | .starting, .setupFails e => { r with phase := .waiting e }
  | .running, .turn t =>
    match t.run r.tags with
    | (tags, .ok ()) => ⟨.running, true, tags⟩
    | (tags, .error e) => ⟨.waiting e, false, tags⟩
  | .running, .event sets => { r with tags := setAll r.tags sets }
  | .running, .stop sets => { r with phase := .stopping, tags := setAll r.tags sets }
  | .stopping, .shutDown => { r with phase := .exited (.ok ()) }
  | .waiting e, .waited => { r with phase := .exited (.error e) }
  | _, .aside sets => { r with tags := setAll r.tags sets }
  | _, .tagEvent ev => { r with tags := r.tags.onTagEvent ev }
  | _, .uiEvent ev => { r with tags := r.tags.onUiSub ev }
  | _, _ => r

theorem step_turn (healthy : Bool) (tags : TagsState) (t : Turn) :
    step ⟨.running, healthy, tags⟩ (.turn t) =
      match t.run tags with
      | (tags, .ok ()) => ⟨.running, true, tags⟩
      | (tags, .error e) => ⟨.waiting e, false, tags⟩ := rfl

/-- The turns that were made, by what came of them. -/
def results (r : Runner) : Action → List (Except DooverError Unit)
  | .turn t =>
    match r.phase with
    | .running => [(t.run r.tags).2]
    | _ => []
  | _ => []

/-- Whether it is the runner's server that listens on the port: its port was free, and the
runner is not gone. -/
def Listens (bound : Bool) (r : Runner) : Prop := bound = true ∧ ∀ result, r.phase ≠ .exited result

/-- What comes of connecting to the port; another process may have it when the runner's server
does not listen, and what comes of it then is `elsewhere`. -/
def connect (bound : Bool) (elsewhere : Except String String) (r : Runner) : Except String String :=
  match bound, r.phase with
  | false, _ | _, .exited _ => elsewhere
  | true, _ => .ok (if r.healthy then RESPONSE_OK else RESPONSE_ERROR)

/-! ## What a completed turn leaves -/

theorem dirty_flushTagsCall (st : TagsState) (rpc : Bool) :
    (st.flushTagsCall rpc).st.dirty = false := by
  cases hd : st.dirty with
  | false =>
    rw [TagsState.flushTagsCall_of_clean st rpc hd]
    exact hd
  | true =>
    rw [TagsState.flushTagsCall_of_dirty st rpc hd]
    cases rpc <;> rfl

theorem immediate_flushImmediateLogsCall (st : TagsState) (rpc : Bool) :
    isEmptyObject (st.flushImmediateLogsCall rpc).st.pendingImmediateLog = true := by
  cases h : isEmptyObject st.pendingImmediateLog with
  | true =>
    rw [TagsState.flushImmediateLogsCall_of_empty st rpc h]
    exact h
  | false =>
    rw [TagsState.flushImmediateLogsCall_of_nonempty st rpc h]
    rfl

theorem immediate_flushLogsCall (st : TagsState) (now : ℕ) (rpc : Bool) :
    (st.flushLogsCall now rpc).st.pendingImmediateLog = st.pendingImmediateLog := by
  cases h : isEmptyObject st.pendingLog with
  | true => rw [TagsState.flushLogsCall_of_empty st rpc now h]
  | false => rw [TagsState.flushLogsCall_of_nonempty st rpc now h]

/-- A commit that succeeds leaves no write and no immediate log behind. -/
theorem commit_ok {st : TagsState} {env : CommitEnv} (h : (st.commitTagsCall env).ok = true) :
    (st.commitTagsCall env).st.dirty = false ∧
      isEmptyObject (st.commitTagsCall env).st.pendingImmediateLog = true := by
  obtain ⟨⟨-, -, hd⟩, -⟩ := st.commitTagsCall_stores env
  refine ⟨hd.trans (dirty_flushTagsCall ..), ?_⟩
  have hempty := immediate_flushImmediateLogsCall (st.flushTagsCall env.flush).st env.immediate
  unfold TagsState.commitTagsCall at h ⊢
  cases hflush : (st.flushTagsCall env.flush).ok with
  | false => simp [hflush] at h
  | true =>
    cases himmediate : ((st.flushTagsCall env.flush).st.flushImmediateLogsCall env.immediate).ok with
    | false => simp [hflush, himmediate] at h
    | true =>
      simp only [hflush, himmediate, Bool.not_true, Bool.false_eq_true, if_false]
      split
      · rw [immediate_flushLogsCall]
        exact hempty
      · exact hempty

/-- **A completed turn leaves the manager clean.** -/
theorem run_ok {t : Turn} {st : TagsState} (h : (t.run st).2 = .ok ()) :
    (t.run st).1.dirty = false ∧ isEmptyObject (t.run st).1.pendingImmediateLog = true := by
  unfold Turn.run at h ⊢
  cases hresult : t.result with
  | error e =>
    rw [hresult] at h
    cases h
  | ok u =>
    rw [hresult] at h
    simp only at h
    split at h
    · rename_i hok
      exact commit_ok hok
    · cases h

/-! ## Runs -/

/-- What the flag tells of the turns that were made: all of them were completed, with none
before the loop, except for the one that it has failed with. -/
def Follows (r : Runner) (rs : List (Except DooverError Unit)) : Prop :=
  (r.healthy = true ↔ .ok () ∈ rs ∧ ∀ e, .error e ∉ rs) ∧
    (r.phase = .starting → rs = []) ∧ (r.phase = .running → ∀ e, .error e ∉ rs)

/-- Nothing but a turn changes the flag. -/
theorem healthy_step {r : Runner} {a : Action} (h : ∀ t, a ≠ .turn t) :
    (step r a).healthy = r.healthy := by
  obtain ⟨phase, healthy, tags⟩ := r
  cases a with
  | turn t => exact absurd rfl (h t)
  | _ => cases phase <;> rfl

/-- Nor leads back to the start, and only from there to the loop. -/
theorem phase_step {r : Runner} {a : Action} (h : ∀ t, a ≠ .turn t) :
    ((step r a).phase = .starting → r.phase = .starting) ∧
      ((step r a).phase = .running → r.phase = .starting ∨ r.phase = .running) := by
  obtain ⟨phase, healthy, tags⟩ := r
  cases a with
  | turn t => exact absurd rfl (h t)
  | _ => cases phase <;> simp [step]

theorem follows_turn {r : Runner} {rs : List (Except DooverError Unit)} (h : Follows r rs)
    (t : Turn) : Follows (step r (.turn t)) (rs ++ results r (.turn t)) := by
  obtain ⟨phase, healthy, tags⟩ := r
  cases phase with
  | running =>
    have hnone := h.2.2 rfl
    rw [step_turn, results]
    cases hrun : t.run tags with
    | mk tags' result =>
      cases result with
      | ok u =>
        have hnone' : ∀ e, Except.error e ∉ rs ++ [Except.ok u] := by
          intro e he
          rcases List.mem_append.mp he with he | he
          · exact hnone e he
          · cases List.mem_singleton.mp he
        refine ⟨iff_of_true rfl ⟨?_, hnone'⟩, fun h => ?_, fun _ => hnone'⟩
        · exact List.mem_append_right _ (List.mem_singleton_self _)
        · cases h
      | error e =>
        refine ⟨iff_of_false Bool.false_ne_true fun h => ?_, fun h => ?_, fun h => ?_⟩
        · exact h.2 e (List.mem_append_right _ (List.mem_singleton_self _))
        · cases h
        · cases h
  | _ => exact (List.append_nil rs).symm ▸ h

/-- **One action.** -/
theorem follows_step {r : Runner} {rs : List (Except DooverError Unit)} (h : Follows r rs)
    (a : Action) : Follows (step r a) (rs ++ results r a) := by
  by_cases hturn : ∃ t, a = .turn t
  · obtain ⟨t, rfl⟩ := hturn
    exact follows_turn h t
  · have hother : ∀ t, a ≠ .turn t := fun t ht => hturn ⟨t, ht⟩
    have hsame : rs ++ results r a = rs := by
      cases a with
      | turn t => exact absurd rfl (hother t)
      | _ => exact List.append_nil rs
    obtain ⟨hflag, hstarting, hrunning⟩ := h
    obtain ⟨hstarting', hrunning'⟩ := phase_step (r := r) hother
    rw [hsame]
    refine ⟨(healthy_step hother).symm ▸ hflag, fun hp => hstarting (hstarting' hp), fun hp => ?_⟩
    rcases hrunning' hp with hp | hp
    · rw [hstarting hp]
      exact fun e => List.not_mem_nil
    · exact hrunning hp

theorem follows_run (tags : TagsState) (acts : List Action) :
    Follows (exec step (start tags) acts) (outputs step results (start tags) acts) := by
  refine outputs_invariant step results (I := Follows) acts ?_ fun _ _ h a _ => follows_step h a
  refine ⟨iff_of_false Bool.false_ne_true fun h => List.not_mem_nil h.1, fun _ => rfl, fun h => ?_⟩
  cases h

theorem probe_connect {addr : String} {debug : List Char → String} {bound : Bool}
    {elsewhere : Except String String} {r : Runner} (h : Listens bound r) :
    probe addr debug (connect bound elsewhere r) = .ok () ↔ r.healthy = true := by
  obtain ⟨phase, healthy, tags⟩ := r
  obtain ⟨rfl, hphase⟩ := h
  obtain ⟨e, herror⟩ := probe_error addr debug
  have hanswer : connect true elsewhere ⟨phase, healthy, tags⟩ =
      .ok (if healthy then RESPONSE_OK else RESPONSE_ERROR) := by
    cases phase with
    | exited result => exact absurd rfl (hphase result)
    | _ => rfl
  rw [hanswer]
  cases healthy with
  | true => exact iff_of_true (probe_ok addr debug) rfl
  | false => exact iff_of_false (by rw [if_neg Bool.false_ne_true, herror]; simp) Bool.false_ne_true

/-- **The healthcheck tells the truth.**  In whatever order things come, as long as it is the
runner's server that listens the probe succeeds exactly if a turn was completed and none has
failed, also while the runner waits or shuts down; and when it succeeds right after a turn in
which no other task sets a tag, no flush is due and no immediate log is pending. -/
theorem probe_ok_iff (addr : String) (debug : List Char → String) (bound : Bool)
    (elsewhere : Except String String) (tags : TagsState) (acts : List Action)
    (h : Listens bound (exec step (start tags) acts)) :
    (probe addr debug (connect bound elsewhere (exec step (start tags) acts)) = .ok () ↔
      .ok () ∈ outputs step results (start tags) acts ∧
        ∀ e, .error e ∉ outputs step results (start tags) acts) ∧
    ∀ t, (exec step (start tags) acts).phase = .running →
      probe addr debug (connect bound elsewhere (exec step (start tags) (acts ++ [.turn t]))) =
        .ok () →
      (exec step (start tags) (acts ++ [.turn t])).tags.dirty = false ∧
        isEmptyObject (exec step (start tags) (acts ++ [.turn t])).tags.pendingImmediateLog =
          true := by
  refine ⟨(probe_connect h).trans (follows_run tags acts).1, fun t hrunning hok => ?_⟩
  rw [exec_concat] at hok ⊢
  generalize exec step (start tags) acts = r at h hrunning hok ⊢
  obtain ⟨phase, healthy, tags⟩ := r
  obtain rfl : phase = .running := hrunning
  cases hrun : t.run tags with
  | mk tags' result =>
    cases result with
    | ok u =>
      have hstep : step ⟨.running, healthy, tags⟩ (.turn t) = ⟨.running, true, tags'⟩ := by
        rw [step_turn, hrun]
      rw [hstep]
      have hclean := run_ok (show (t.run tags).2 = .ok () by rw [hrun])
      rw [hrun] at hclean
      exact hclean
    | error e =>
      have hstep : step ⟨.running, healthy, tags⟩ (.turn t) = ⟨.waiting e, false, tags'⟩ := by
        rw [step_turn, hrun]
      rw [hstep] at hok
      have hlistens : Listens bound ⟨.waiting e, false, tags'⟩ := ⟨h.1, fun _ h => by cases h⟩
      cases (probe_connect hlistens).mp hok

/-- A turn that sets nothing. -/
def quietTurn : Turn := ⟨[], .ok (), ⟨0, 0, true, true, true, true⟩, ⟨"RuntimeError", ""⟩⟩

/-- While the app shuts down after a turn it is still reported healthy. -/
theorem healthy_while_stopping :
    probe "127.0.0.1:49200" String.ofList (connect true (.error "refused")
        (exec step (start .default) [.ready, .turn quietTurn, .stop []])) = .ok () ∧
      (exec step (start .default) [.ready, .turn quietTurn, .stop []]).phase = .stopping := by
  have hlistens : Listens true
      (exec step (start .default) [.ready, .turn quietTurn, .stop []]) :=
    ⟨rfl, fun _ h => by cases h⟩
  have hturns : outputs step results (start .default) [.ready, .turn quietTurn, .stop []] =
      [.ok ()] := rfl
  refine ⟨(probe_ok_iff "127.0.0.1:49200" String.ofList true (.error "refused") .default
    [.ready, .turn quietTurn, .stop []] hlistens).1.mpr ?_, rfl⟩
  rw [hturns]
  exact ⟨List.mem_singleton_self _, fun e he => by cases List.mem_singleton.mp he⟩

end MainLoop

end Doover
