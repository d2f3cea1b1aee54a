import Doover.KeyPath
import Doover.LogTriggers
import Doover.Events

/-! # The tag manager

`TagsRuntime` keeps two stores under one mutex: `tagValues`, the cached aggregate,
and `pendingAggregate`, the writes not flushed yet.  A reader sees the first
overlaid with the second (`current`).  The mutex is never held across an await, so
a call that sends something is two steps, one before its RPC and one after it.
This module has each step as a function on the state:

* `setNestedTags` and `setNestedTagsSent`, the halves of a write (the second runs
  only for `flush`);
* `flushTags` and `flushTagsSent`, the halves of the end-of-loop flush;
* `flushImmediateLogs` and `flushLogs`, which have no second half;
* the handlers of the two channels, and the reads.

What a step does to the two stores and the dirty flag is stated once, in the
lemmas after its definition; later modules use these.
-/

namespace Doover
open Json

/-- Claims on a tag older than this, in milliseconds, are dropped. -/
def UI_SUB_FRESH_MS : ℚ := 120000

/-- The interval of the periodic log flush, in milliseconds. -/
def TAG_CLOUD_MAX_AGE_MS : ℕ := 900000

def emptyObject : Json := .object .empty

/-- Options of a tag write. -/
structure SetTagOptions where
  /-- Skip the write when the values match what is cached and pending. -/
  onlyIfChanged : Bool
  /-- Publish now instead of at the end of the loop. -/
  flush : Bool
  /-- Log this update at the end of this loop. -/
  log : Bool
deriving DecidableEq

namespace SetTagOptions

def default : SetTagOptions := ⟨true, false, false⟩

end SetTagOptions

/-- A subscriber, by the token it was registered under. -/
abbrev TagCallback := ℕ

structure TagsState where
  /-- The cached `tag_values` aggregate. -/
  tagValues : Json
  /-- Writes awaiting the end-of-loop flush. -/
  pendingAggregate : Json
  /-- Changes awaiting the periodic log flush. -/
  pendingLog : Json
  /-- Changes logged at the end of this loop. -/
  pendingImmediateLog : Json
  dirty : Bool
  /-- When the periodic log was last flushed, in milliseconds. -/
  lastLogFlush : Option ℕ
  liveTagKeys : List KeyPath
  uiSub : Json
  subscriptions : List (KeyPath × TagCallback)
  logTriggers : List (KeyPath × TriggerSet Binary64)

/-- What a write leaves to do once the lock is released. -/
inductive TagWrite where
  /-- Nothing changed, nothing was buffered. -/
  | unchanged
  /-- The end-of-loop flush sends it. -/
  | buffered
  /-- Send this now. -/
  | flush (payload : Json)

namespace TagsState

def default : TagsState :=
  ⟨emptyObject, emptyObject, emptyObject, emptyObject, false, none, [], emptyObject, [], []⟩

/-- The cached values overlaid with the pending writes. -/
def current (st : TagsState) : Json := applyDiff st.tagValues st.pendingAggregate false

/-! ## Channel events -/

def onTagSync (st : TagsState) (ev : Event) : TagsState :=
  { st with tagValues := ev.aggregateData.getD emptyObject }

/-- Refresh the cache; the second component is the calls to the subscribers, made
after the lock is released. -/
def onTagUpdate (st : TagsState) (ev : Event) :
    TagsState × List (KeyPath × TagCallback × Option Json) :=
  match ev.aggregateData with
  | none => (st, [])
  | some newValues =>
    let diff := generateDiff st.tagValues newValues false
    let st := { st with tagValues := newValues }
    if isEmptyObject diff then (st, [])
    else
      (st, (st.subscriptions.filter fun s => s.1.inValue diff).map
        fun s => (s.1, s.2, s.1.lookup diff))

/-- The subscription to `tag_values`. -/
def onTagEvent (st : TagsState) (ev : Event) : TagsState :=
  if ev.isChannelSync then st.onTagSync ev else (st.onTagUpdate ev).1

/-- The subscription to `dv-ui-sub`. -/
def onUiSub (st : TagsState) (ev : Event) : TagsState :=
  match ev.aggregateData with
  | some data => { st with uiSub := data }
  | none => st

def subscribeToTag (st : TagsState) (appKey key : String) (callback : TagCallback) : TagsState :=
  let kp := KeyPath.mkScoped appKey [key]
  { st with
    subscriptions := (st.subscriptions.filter fun s => s.1 ≠ kp) ++ [(kp, callback)] }

/-! ## Log triggers -/

/-- Registering a path again replaces its triggers and resets their state. -/
def registerLogTriggers (st : TagsState) (appKey key : String)
    (triggers : List (LogTrigger Binary64)) (default : Option Json) : TagsState :=
  let kp := KeyPath.mkScoped appKey [key]
  { st with
    logTriggers := (st.logTriggers.filter fun t => t.1 ≠ kp) ++
      [(kp, TriggerSet.new triggers default)] }

/-- Run the triggers of a path on an incoming value. -/
def evaluateLogTriggers (st : TagsState) (kp : KeyPath) (new : Json) : TagsState × Bool :=
  match st.logTriggers.findIdx? fun t => t.1 = kp with
  | none => (st, false)
  | some idx =>
    match st.logTriggers[idx]? with
    | none => (st, false)
    | some (existing, set) =>
      let r := set.evaluate (kp.lookup st.current) new
      ({ st with logTriggers := st.logTriggers.set idx (existing, r.1) }, r.2)

theorem evaluateLogTriggers_eq (st : TagsState) (kp : KeyPath) (new : Json) :
    ∃ ts, (st.evaluateLogTriggers kp new).1 = { st with logTriggers := ts } := by
  unfold evaluateLogTriggers
  split
  · exact ⟨st.logTriggers, rfl⟩
  · split <;> exact ⟨_, rfl⟩

/-! ## Observation -/

/-- The fresh entries of one bucket of `dv-ui-sub`. -/
def freshEntries (uiSub : Json) (bucket : String) (now : ℚ) : List Json :=
  match (uiSub.get? bucket).bind asObject with
  | none => []
  | some entries =>
    (entries.keys.filterMap entries.get?).filter fun entry =>
      let ts := match entry with
        | .object m => (m.get? "ts").bind asF64
        | other => other.asF64
      ts.any fun ts => now - ts < UI_SUB_FRESH_MS

/-- The tags some user has in live mode, by qualified name. -/
def liveTagsOpened (uiSub : Json) (now : ℚ) : List String :=
  (freshEntries uiSub "live_tag_open" now).flatMap fun entry =>
    (((entry.get? "tags").bind asArray).getD []).filterMap asStr

/-! ## Reads -/

/-- Read a tag from the cache overlaid with the pending writes. -/
def getTag (st : TagsState) (appKey key : String) : Option Json :=
  (KeyPath.mkScoped appKey [key]).lookup st.current

/-! ## Writes -/

/-- Whether a write is dropped because it changes nothing. -/
def suppresses (st : TagsState) (tags : Json) (opts : SetTagOptions) : Bool :=
  opts.onlyIfChanged && isEmptyObject (generateDiff st.current tags false)

/-- The locked half of a write before its RPC. -/
def setNestedTags (st : TagsState) (tags : Json) (opts : SetTagOptions) : TagsState × TagWrite :=
  if st.suppresses tags opts then (st, .unchanged)
  else
    let st :=
      if opts.log then
        -- promoted to the immediate bucket, and taken out of the periodic one
        { st with
          pendingImmediateLog := applyDiff st.pendingImmediateLog tags false
          pendingLog := stripPaths st.pendingLog tags }
      else { st with pendingLog := applyDiff st.pendingLog tags false }
    let st := { st with pendingAggregate := applyDiff st.pendingAggregate tags false }
    if opts.flush then (st, .flush st.pendingAggregate)
    else ({ st with dirty := true }, .buffered)

/-- The locked half of a flushing write after its RPC succeeded. -/
def setNestedTagsSent (st : TagsState) : TagsState :=
  { st with tagValues := applyDiff st.tagValues st.pendingAggregate true, dirty := false }

/-- A single-tag write up to its RPC: a fired trigger promotes it to a logged one. -/
def setTag (st : TagsState) (appKey key : String) (value : Json) (opts : SetTagOptions) :
    TagsState × TagWrite :=
  let kp := KeyPath.mkScoped appKey [key]
  let r := st.evaluateLogTriggers kp value
  r.1.setNestedTags (kp.construct value) { opts with log := opts.log || r.2 }

/-! ## Flushes -/

/-- The locked half of `flush_tags` before its RPC; nothing is sent unless dirty. -/
def flushTags (st : TagsState) : TagsState × Option Json :=
  if !st.dirty then (st, none)
  else ({ st with dirty := false, pendingAggregate := emptyObject }, some st.pendingAggregate)

/-- The locked half of `flush_tags` after the RPC that sent `data` succeeded. -/
def flushTagsSent (st : TagsState) (data : Json) : TagsState :=
  { st with tagValues := applyDiff st.tagValues data true }

/-- The one-shot message with the live tags some user watches, if there is one. -/
def flushLiveTags (st : TagsState) (now : ℚ) : Option Json :=
  let opened := liveTagsOpened st.uiSub now
  if st.liveTagKeys.isEmpty || opened.isEmpty then none
  else
    let payload := st.liveTagKeys.foldl (fun payload kp =>
      if opened.contains kp.qualifiedName then
        match kp.lookup st.current with
        | some value => applyDiff payload (kp.construct value) false
        | none => payload
      else payload) emptyObject
    if isEmptyObject payload then none else some payload

/-- The locked half of `flush_immediate_logs`, before the message is created. -/
def flushImmediateLogs (st : TagsState) : TagsState × Option Json :=
  if isEmptyObject st.pendingImmediateLog then (st, none)
  else ({ st with pendingImmediateLog := emptyObject }, some st.pendingImmediateLog)

/-- The locked half of `flush_logs`, before the message is created. -/
def flushLogs (st : TagsState) (now : ℕ) : TagsState × Option Json :=
  if isEmptyObject st.pendingLog then (st, none)
  else ({ st with lastLogFlush := some now, pendingLog := emptyObject }, some st.pendingLog)

/-- Whether a commit at time `now` flushes the periodic log. -/
def periodicDue (st : TagsState) (now : ℕ) : Bool :=
  !isEmptyObject st.pendingLog &&
    st.lastLogFlush.all fun at_ => TAG_CLOUD_MAX_AGE_MS ≤ now - at_

/-! ## What a step does to the two stores and the dirty flag -/

section Effects
variable (st : TagsState) (tags : Json) (opts : SetTagOptions)

@[simp] theorem setNestedTags_tagValues :
    (st.setNestedTags tags opts).1.tagValues = st.tagValues := by
  unfold setNestedTags
  split
  · rfl
  · cases opts.log <;> cases opts.flush <;> rfl

theorem setNestedTags_pendingAggregate :
    (st.setNestedTags tags opts).1.pendingAggregate =
      if st.suppresses tags opts then st.pendingAggregate
      else applyDiff st.pendingAggregate tags false := by
  unfold setNestedTags
  split
  · rfl
  · cases opts.log <;> cases opts.flush <;> rfl

theorem setNestedTags_dirty :
    (st.setNestedTags tags opts).1.dirty =
      (st.dirty || (!st.suppresses tags opts && !opts.flush)) := by
  unfold setNestedTags
  split
  · rename_i h
    simp [h]
  · rename_i h
    cases opts.log <;> cases opts.flush <;> simp [h]

/-- A write that is not dropped sends the whole pending aggregate, or leaves it for
the flush. -/
theorem setNestedTags_snd :
    (st.setNestedTags tags opts).2 =
      if st.suppresses tags opts then .unchanged
      else if opts.flush then .flush (applyDiff st.pendingAggregate tags false)
      else .buffered := by
  unfold setNestedTags
  split
  · rfl
  · cases opts.log <;> cases opts.flush <;> rfl

theorem setNestedTags_of_suppresses (h : st.suppresses tags opts = true) :
    st.setNestedTags tags opts = (st, .unchanged) := if_pos h

end Effects

/-- The logs are no part of what a reader sees. -/
theorem current_congr {st st' : TagsState} (hv : st'.tagValues = st.tagValues)
    (hp : st'.pendingAggregate = st.pendingAggregate) : st'.current = st.current := by
  rw [current, current, hv, hp]

theorem flushImmediateLogs_eq (st : TagsState) :
    ∃ log, st.flushImmediateLogs.1 = { st with pendingImmediateLog := log } := by
  unfold flushImmediateLogs
  split
  · exact ⟨st.pendingImmediateLog, rfl⟩
  · exact ⟨_, rfl⟩

theorem flushLogs_eq (st : TagsState) (now : ℕ) :
    ∃ at_ log, (st.flushLogs now).1 = { st with lastLogFlush := at_, pendingLog := log } := by
  unfold flushLogs
  split
  · exact ⟨st.lastLogFlush, st.pendingLog, rfl⟩
  · exact ⟨_, _, rfl⟩

end TagsState
end Doover
