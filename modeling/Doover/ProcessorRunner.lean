import Doover.ProcessorTags
import Doover.StepRuns

/-! # One processor invocation

`dispatchInvocation` is the pipeline: the event is decoded, the filters and the setup
run, then the handler, then the tags are committed.  Any of the user's callbacks may set
tags and commit them on its own; what a failed commit returned is the callback's affair,
and an error of the handler is logged only.

A commit takes the buffers before it sends, so after a failure there is nothing left for
the next one (`commit_failed_reset`).  The tag log (`TagEntry`) tells what became of the
aggregate: the sets that moved a tag and the aggregate writes attempted, in order.  A
write is attempted only when a tag has moved since the last attempt, and it carries every
value moved in the invocation (`Logged`); so every tag is published exactly when the log
ends in a write that succeeded (`published_iff`).
-/

namespace Doover
open Json StepRuns

/-! ## The pipeline -/

inductive SkipReason where
  | noHandler
  | preHookFilter
  | tagValuesSelfLoop
  | postSetupFilter
deriving DecidableEq

/-- How a dispatch ended when it didn't succeed. -/
inductive DispatchEnd where
  | skipped (reason : SkipReason)
  | failed (errorType message : String)

/-- A decoded event, with what the dispatch reads of it. -/
inductive EventPayload where
  | messageCreate (channelName : String) (data : Json)
  | aggregateUpdate (channelName : String) (requestData : Json)
  | alarmTrigger (channelName : String)
  | deployment
  | schedule
  | ingestionEndpoint
  | manualInvoke

inductive Handled where
  | done
  | notImplemented
deriving DecidableEq

/-- What a callback does with the tags. -/
inductive TagOp where
  | setTag (key : String) (value : Json) (opts : SetProcessorTagOptions)
  | setLogMode (mode : LogMode)
  | commit (recordLog : Bool) (answers : CommitAnswers)

/-- What the token upgrade gives. -/
structure SubscriptionInfo where
  appKey : String
  tagValues : Json

/-- An invocation: its event, and what the API, the backend and the user's callbacks do.
What the setup and close callbacks return is only logged. -/
structure Invocation where
  event : Json
  /-- The event decoded by its `op`, or the error; `none` for an unknown `op`. -/
  decodePayload : Except DispatchEnd (Option EventPayload)
  preHookFilter : Bool
  setupContext : Except DispatchEnd SubscriptionInfo
  setup : List TagOp
  postSetupFilter : List TagOp × Bool
  handler : List TagOp × Except String Handled
  /-- The answers to the commit that follows the handler. -/
  answers : CommitAnswers
  close : List TagOp

def EventPayload.isDeployment : EventPayload → Bool
  | .deployment => true
  | _ => false

/-- An error of the handler is logged, and the invocation goes on. -/
def Invocation.handled (inv : Invocation) : Handled :=
  match inv.handler.2 with
  | .ok handled => handled
  | .error _ => .done

/-- An event caused by this app's own tag write must not trigger it again. -/
def isTagValuesSelfLoop (payload : EventPayload) (appKey : String) : Bool :=
  match payload with
  | .aggregateUpdate channelName data | .messageCreate channelName data =>
    channelName == "tag_values" && data.asObject.any fun m => m.containsKey appKey
  | _ => false

/-! ## Tag operations -/

/-- What happens to the aggregate: a set moves a tag, or a write is attempted. -/
inductive TagEntry where
  | moved (appKey key : String) (value : Json)
  | wrote (data : Json) (ok : Bool)

/-- The tags, and the log of the aggregate, newest entry first. -/
structure TagRun where
  tags : ProcessorTags
  log : List TagEntry

namespace TagRun

def seed (info : SubscriptionInfo) : TagRun := ⟨.new info.appKey info.tagValues true, []⟩

/-- The aggregate writes among the writes of a commit. -/
def aggregateWrites : List TagChannelWrite → List TagEntry
  | [] => []
  | .aggregate data ok :: writes => .wrote data ok :: aggregateWrites writes
  | .message _ _ :: writes => aggregateWrites writes

def step (r : TagRun) : TagOp → TagRun
  | .setTag key value opts =>
    let appKey := opts.appKey.getD r.tags.appKey
    ⟨r.tags.setTagWith key value opts,
      if r.tags.moves appKey key value then .moved appKey key value :: r.log else r.log⟩
  | .setLogMode mode => ⟨r.tags.setLogMode mode, r.log⟩
  | .commit recordLog answers =>
    let (tags, writes, _) := r.tags.commitTagsWith recordLog answers
    ⟨tags, aggregateWrites writes ++ r.log⟩

end TagRun

/-- The tags at the start; without a context no callback runs. -/
def Invocation.seed (inv : Invocation) : TagRun :=
  match inv.setupContext with
  | .ok info => .seed info
  | .error _ => .seed ⟨"", .null⟩

/-- The tag operations of the callbacks before the commit of the dispatch. -/
def Invocation.callbacks (inv : Invocation) : List TagOp :=
  inv.setup ++ inv.postSetupFilter.1 ++ inv.handler.1

/-- How the dispatch ends, and the tag operations up to there, in order. -/
def dispatchInvocation (inv : Invocation) : Except DispatchEnd Unit × List TagOp :=
  if ((inv.event.get? "token").bind asStr).isNone then
    (.error (.failed "RuntimeError" "Initial token has not been set."), [])
  else
    match inv.decodePayload with
    | .error e => (.error e, [])
    | .ok none => (.error (.skipped .noHandler), [])
    | .ok (some payload) =>
      if !inv.preHookFilter then (.error (.skipped .preHookFilter), [])
      else
        match inv.setupContext with
        | .error e => (.error e, [])
        | .ok info =>
          if isTagValuesSelfLoop payload info.appKey then
            (.error (.skipped .tagValuesSelfLoop), [])
          else
            let ops := inv.setup ++ inv.postSetupFilter.1
            if !inv.postSetupFilter.2 then (.error (.skipped .postSetupFilter), ops)
            else
              let ops := ops ++ inv.handler.1
              if inv.handled = .notImplemented && !payload.isDeployment then
                (.error (.skipped .noHandler), ops)
              else
                let tags := (exec TagRun.step inv.seed ops).tags
                let ops := ops ++ [.commit false inv.answers]
                match (tags.commitTagsWith false inv.answers).2.2 with
                | .error e => (.error (.failed e.typeName e.message), ops)
                | .ok () => (.ok (), ops ++ inv.close)

/-- The event passes the filters and is handled: the dispatch comes to its commit. -/
def Invocation.reachesCommit (inv : Invocation) : Bool :=
  match (inv.event.get? "token").bind asStr, inv.decodePayload, inv.setupContext with
  | some _, .ok (some payload), .ok info =>
    inv.preHookFilter && !isTagValuesSelfLoop payload info.appKey && inv.postSetupFilter.2 &&
      !(inv.handled = .notImplemented && !payload.isDeployment)
  | _, _, _ => false

/-- What the commit of the dispatch returns. -/
def Invocation.committed (inv : Invocation) : Except DooverError Unit :=
  ((exec TagRun.step inv.seed inv.callbacks).tags.commitTagsWith false inv.answers).2.2

theorem dispatch_of_not_reachesCommit {inv : Invocation} (h : inv.reachesCommit = false) :
    (dispatchInvocation inv).1 ≠ .ok () := by
  rw [Invocation.reachesCommit] at h
  rw [dispatchInvocation]
  cases htoken : (inv.event.get? "token").bind asStr with
  | none => exact nofun
  | some token =>
    rw [htoken] at h
    cases hpayload : inv.decodePayload with
    | error e => exact nofun
    | ok payload =>
      cases payload with
      | none => exact nofun
      | some payload =>
        cases hinfo : inv.setupContext with
        | error e =>
          simp only [Option.isNone_some, Bool.false_eq_true, if_false]
          split_ifs <;> exact nofun
        | ok info =>
          rw [hpayload, hinfo] at h
          simp only [Option.isNone_some, Bool.false_eq_true, if_false]
          split_ifs with hpre hloop hpost hhandled
          iterate 4 exact nofun
          simp_all

theorem dispatch_of_reachesCommit {inv : Invocation} (h : inv.reachesCommit = true) :
    inv.callbacks ++ [.commit false inv.answers] <+: (dispatchInvocation inv).2 ∧
      ((dispatchInvocation inv).1 = .ok () ↔ inv.committed = .ok ()) ∧
      (inv.committed = .ok () → (dispatchInvocation inv).2 =
        inv.callbacks ++ [.commit false inv.answers] ++ inv.close) := by
  rw [Invocation.reachesCommit] at h
  rw [dispatchInvocation]
  cases htoken : (inv.event.get? "token").bind asStr with
  | none => rw [htoken] at h; cases h
  | some token =>
    cases hpayload : inv.decodePayload with
    | error e => rw [htoken, hpayload] at h; cases h
    | ok payload =>
      cases payload with
      | none => rw [htoken, hpayload] at h; cases h
      | some payload =>
        cases hinfo : inv.setupContext with
        | error e => rw [htoken, hpayload, hinfo] at h; cases h
        | ok info =>
          rw [htoken, hpayload, hinfo] at h
          simp only [Bool.and_eq_true, Bool.not_eq_true'] at h
          obtain ⟨⟨⟨hpre, hloop⟩, hpost⟩, hhandled⟩ := h
          simp only [Option.isNone_some, Bool.false_eq_true, if_false, hpre, Bool.not_true, hloop,
            hpost, hhandled]
          rw [Invocation.committed, Invocation.callbacks]
          split
          · rename_i e herror
            rw [herror]
            exact ⟨List.prefix_rfl, iff_of_false nofun nofun, nofun⟩
          · rename_i hok
            rw [hok]
            exact ⟨List.prefix_append .., iff_of_true rfl rfl, fun _ => rfl⟩

/-! ## The tag log -/

theorem Invocation.seed_log (inv : Invocation) : inv.seed.log = [] := by
  rw [Invocation.seed]
  split <;> rfl

/-- The value a tag was last moved to. -/
def lastMoved : List TagEntry → String → String → Option Json
  | [], _, _ => none
  | .moved a' k' v :: l, a, k => if a = a' ∧ k = k' then some v else lastMoved l a k
  | .wrote _ _ :: l, a, k => lastMoved l a k

/-- The newest entry is a set: something is not yet in a write. -/
def endsMoved : List TagEntry → Bool
  | .moved _ _ _ :: _ => true
  | _ => false

theorem exists_of_endsMoved {log : List TagEntry} (h : endsMoved log = true) :
    ∃ a k v l, log = .moved a k v :: l := by
  cases log with
  | nil => cases h
  | cons e l =>
    cases e with
    | moved a k v => exact ⟨a, k, v, l, rfl⟩
    | wrote data ok => cases h

/-- The newest entry, if any, is a write that succeeded. -/
def endsWritten : List TagEntry → Bool
  | [] => true
  | .wrote _ ok :: _ => ok
  | .moved _ _ _ :: _ => false

theorem endsMoved_of_endsWritten {log : List TagEntry} (h : endsWritten log = true) :
    endsMoved log = false := by
  cases log with
  | nil => rfl
  | cons e l =>
    cases e with
    | moved a k v => cases h
    | wrote data ok => rfl

/-- **Every tag that moved is in an aggregate write that succeeded**, with the value it
was last moved to.  A set to the value that a tag has moves nothing: there is no entry for it,
`dirty` stays as it is, and no commit writes the aggregate on its account.  The value is what the
aggregate had at the start, or was last moved to, and then it is published as that. -/
def Published (log : List TagEntry) : Prop :=
  ∀ later a k v earlier, log = later ++ .moved a k v :: earlier → lastMoved later a k = none →
    ∃ data, .wrote data true ∈ later ∧ (data.get? a).bind (·.get? k) = some v

theorem lastMoved_append {later earlier : List TagEntry} {a k : String} {v : Json}
    (h : lastMoved later a k = none) :
    lastMoved (later ++ .moved a k v :: earlier) a k = some v := by
  induction later with
  | nil => exact if_pos ⟨rfl, rfl⟩
  | cons e later ih =>
    cases e with
    | moved a' k' v' =>
      by_cases he : a = a' ∧ k = k'
      · rw [lastMoved, if_pos he] at h
        cases h
      · rw [lastMoved, if_neg he] at h
        rw [List.cons_append, lastMoved, if_neg he]
        exact ih h
    | wrote data ok => exact ih h

/-- What a run of tag operations has in its log is what its tags hold: what is dirty is
what moved since the last attempted write, and the last attempt carried every value moved
before it. -/
structure Logged (r : TagRun) : Prop where
  dirty : r.tags.dirty.isEmpty = !endsMoved r.log
  marked : endsMoved r.log = true → r.tags.updateTags = true
  held : ∀ a k v, lastMoved r.log a k = some v → r.tags.getTagScoped a k = some v
  external : ∀ a k v, lastMoved r.log a k = some v → a ≠ r.tags.appKey →
    r.tags.updateExternalTags = true
  attempted : ∀ data ok l, r.log = .wrote data ok :: l → endsMoved l = true
  carried : ∀ data ok l, r.log = .wrote data ok :: l → ∀ a k v, lastMoved l a k = some v →
    (data.get? a).bind (·.get? k) = some v

namespace Logged
variable {r : TagRun}

theorem seed (inv : Invocation) : Logged inv.seed := by
  obtain ⟨info, hinfo⟩ : ∃ info, inv.seed = .seed info := by
    rw [Invocation.seed]
    split <;> exact ⟨_, rfl⟩
  rw [hinfo]
  exact ⟨rfl, nofun, nofun, nofun, nofun, nofun⟩

/-- Nothing happened to the aggregate. -/
theorem of_log_eq (h : Logged r) {r' : TagRun} (hlog : r'.log = r.log)
    (hdirty : r'.tags.dirty = r.tags.dirty) (hvalues : r'.tags.tagValues = r.tags.tagValues)
    (happ : r'.tags.appKey = r.tags.appKey)
    (hupdate : r.tags.updateTags = true → r'.tags.updateTags = true)
    (hexternal : r.tags.updateExternalTags = true → r'.tags.updateExternalTags = true) :
    Logged r' where
  dirty := by rw [hdirty, hlog, h.dirty]
  marked := by
    rw [hlog]
    exact fun hm => hupdate (h.marked hm)
  held a k v hv := by
    rw [hlog] at hv
    rw [ProcessorTags.getTagScoped, hvalues]
    exact h.held a k v hv
  external a k v hv hne := by
    rw [hlog] at hv
    rw [happ] at hne
    exact hexternal (h.external a k v hv hne)
  attempted := by
    rw [hlog]
    exact h.attempted
  carried := by
    rw [hlog]
    exact h.carried

theorem setTag (h : Logged r) (key : String) (value : Json) (opts : SetProcessorTagOptions) :
    Logged (r.step (.setTag key value opts)) := by
  cases hm : r.tags.moves (opts.appKey.getD r.tags.appKey) key value with
  | false =>
    obtain ⟨hvalues, hdirty, hupdate, hexternal⟩ := ProcessorTags.setTagWith_of_not_moves hm
    refine h.of_log_eq ?_ hdirty hvalues (ProcessorTags.setTagWith_appKey ..) hupdate hexternal
    simp only [TagRun.step, hm, Bool.false_eq_true, if_false]
  | true =>
    obtain ⟨hvalues, hdirty, hupdate, hexternal⟩ := ProcessorTags.setTagWith_of_moves rfl hm
    have hlog : (r.step (.setTag key value opts)).log =
        .moved (opts.appKey.getD r.tags.appKey) key value :: r.log := by
      simp only [TagRun.step, hm, if_true]
    have hcons : ∀ data ok l, (r.step (.setTag key value opts)).log ≠ .wrote data ok :: l := by
      intro data ok l
      rw [hlog]
      simp
    refine ⟨?_, fun _ => hupdate, ?_, ?_, ?_, ?_⟩
    · rw [hlog]
      exact (congrArg IndexMap.isEmpty hdirty).trans (isEmpty_insertNested ..)
    · intro a k v hv
      rw [hlog, lastMoved] at hv
      rw [ProcessorTags.getTagScoped]
      refine (congrArg (·.scoped a k) hvalues).trans ((scoped_insertNested ..).trans ?_)
      by_cases he : a = opts.appKey.getD r.tags.appKey ∧ k = key
      · rw [if_pos he] at hv ⊢
        exact hv
      · rw [if_neg he] at hv ⊢
        exact h.held a k v hv
    · intro a k v hv hne
      have hne' : a ≠ r.tags.appKey := by rwa [← ProcessorTags.setTagWith_appKey key value opts]
      refine hexternal.trans ?_
      rw [hlog, lastMoved] at hv
      by_cases he : a = opts.appKey.getD r.tags.appKey ∧ k = key
      · rw [← he.1, decide_eq_true hne', Bool.or_true]
      · rw [if_neg he] at hv
        rw [h.external a k v hv hne', Bool.true_or]
    · exact fun data ok l hl => absurd hl (hcons data ok l)
    · exact fun data ok l hl => absurd hl (hcons data ok l)

end Logged

namespace TagRun
variable {r : TagRun} (recordLog : Bool) (answers : CommitAnswers)

theorem step_commit_idle (h : r.tags.updateTags = false) :
    r.step (.commit recordLog answers) = r := by
  simp only [step, ProcessorTags.commitTagsWith, h]
  rfl

theorem aggregateWrites_sendLog (payload : Option Json) :
    aggregateWrites (ProcessorTags.sendLog payload answers).1 = [] := by
  unfold ProcessorTags.sendLog
  split <;> rfl

/-- A commit takes the buffers, and attempts one aggregate write if there is an update. -/
theorem step_commit (h : r.tags.updateTags = true) :
    (r.step (.commit recordLog answers)).tags = r.tags.reset ∧
      (r.tags.aggregateUpdate = none → (r.step (.commit recordLog answers)).log = r.log) ∧
      ∀ data, r.tags.aggregateUpdate = some data →
        (r.step (.commit recordLog answers)).log =
          .wrote data answers.aggregate.isOk :: r.log := by
  have hnot : ¬ (!r.tags.updateTags) = true := by simp [h]
  cases hagg : r.tags.aggregateUpdate with
  | none =>
    simp only [step, ProcessorTags.commitTagsWith, if_neg hnot, hagg, aggregateWrites_sendLog]
    exact ⟨trivial, fun _ => rfl, fun d hd => by cases hd⟩
  | some data =>
    cases ha : answers.aggregate with
    | ok u =>
      simp only [step, ProcessorTags.commitTagsWith, if_neg hnot, hagg, ha, aggregateWrites,
        aggregateWrites_sendLog]
      exact ⟨trivial, by simp, fun d hd => by cases hd; rfl⟩
    | error e =>
      simp only [step, ProcessorTags.commitTagsWith, if_neg hnot, hagg, ha, aggregateWrites]
      exact ⟨trivial, by simp, fun d hd => by cases hd; rfl⟩

end TagRun

/-- While a set is newest in the log, a commit attempts a write, of every moved value. -/
theorem Logged.aggregateUpdate {r : TagRun} (h : Logged r) (hm : endsMoved r.log = true) :
    ∃ data, r.tags.aggregateUpdate = some data ∧
      ∀ a k v, lastMoved r.log a k = some v → (data.get? a).bind (·.get? k) = some v := by
  have hdirty : r.tags.dirty.isEmpty = false := by rw [h.dirty, hm]; rfl
  have hupdate : r.tags.aggregateUpdate = r.tags.update := by
    rw [ProcessorTags.aggregateUpdate, hdirty]
    rfl
  have hcarries : ∀ a k v, lastMoved r.log a k = some v →
      ∃ data, r.tags.update = some data ∧ (data.get? a).bind (·.get? k) = some v :=
    fun a k v hv => ProcessorTags.update_of_scoped (h.held a k v hv) (h.external a k v hv)
  obtain ⟨a, k, v, l, hl⟩ := exists_of_endsMoved hm
  obtain ⟨data, hdata, -⟩ := hcarries a k v (by rw [hl]; exact if_pos ⟨rfl, rfl⟩)
  refine ⟨data, hupdate.trans hdata, fun a k v hv => ?_⟩
  obtain ⟨data', hdata', hk⟩ := hcarries a k v hv
  obtain rfl := Option.some.inj (hdata.symm.trans hdata')
  exact hk

theorem Logged.aggregateUpdate_none {r : TagRun} (h : Logged r) (hm : endsMoved r.log = false) :
    r.tags.aggregateUpdate = none := by
  rw [ProcessorTags.aggregateUpdate, h.dirty, hm]
  rfl

theorem Logged.commit {r : TagRun} (h : Logged r) (recordLog : Bool) (answers : CommitAnswers) :
    Logged (r.step (.commit recordLog answers)) := by
  cases hu : r.tags.updateTags with
  | false => rwa [TagRun.step_commit_idle recordLog answers hu]
  | true =>
    obtain ⟨htags, hnone, hsome⟩ := TagRun.step_commit recordLog answers hu
    cases hm : endsMoved r.log with
    | false =>
      have hlog := hnone (h.aggregateUpdate_none hm)
      refine ⟨?_, ?_, ?_, ?_, ?_, ?_⟩
      · rw [htags, hlog, hm]; rfl
      · rw [hlog, hm]; exact nofun
      · rw [htags, hlog]; exact h.held
      · rw [htags, hlog]; exact h.external
      · rw [hlog]; exact h.attempted
      · rw [hlog]; exact h.carried
    | true =>
      obtain ⟨data, hdata, hcarries⟩ := h.aggregateUpdate hm
      have hlog := hsome data hdata
      refine ⟨?_, ?_, ?_, ?_, ?_, ?_⟩
      · rw [htags, hlog]; rfl
      · rw [hlog]; exact nofun
      · rw [htags, hlog]; exact h.held
      · rw [htags, hlog]; exact h.external
      · rw [hlog]
        intro d ok l hcons
        cases hcons
        exact hm
      · rw [hlog]
        intro d ok l hcons
        cases hcons
        exact hcarries

theorem Logged.step {r : TagRun} (h : Logged r) (op : TagOp) : Logged (r.step op) := by
  cases op with
  | setTag key value opts => exact h.setTag key value opts
  | setLogMode mode => exact h.of_log_eq rfl rfl rfl rfl id id
  | commit recordLog answers => exact h.commit recordLog answers

theorem Logged.exec {r : TagRun} (h : Logged r) (ops : List TagOp) :
    Logged (exec TagRun.step r ops) :=
  exec_invariant TagRun.step h fun _ hs op _ => hs.step op

/-- **Published exactly when the last write succeeded.** -/
theorem Logged.published_iff {r : TagRun} (h : Logged r) :
    Published r.log ↔ endsWritten r.log = true := by
  cases hlog : r.log with
  | nil =>
    refine iff_of_true (fun later a k v earlier hsplit => ?_) rfl
    exact absurd hsplit (List.append_ne_nil_of_right_ne_nil _ (List.cons_ne_nil _ _)).symm
  | cons e l =>
    cases e with
    | moved a k v =>
      refine iff_of_false (fun hpub => ?_) nofun
      obtain ⟨data, hmem, -⟩ := hpub [] a k v l rfl rfl
      cases hmem
    | wrote data ok =>
      cases ok with
      | true =>
        refine iff_of_true (fun later a k v earlier hsplit hlast => ?_) rfl
        cases later with
        | nil => cases hsplit
        | cons e' later =>
          rw [List.cons_append, List.cons.injEq] at hsplit
          obtain ⟨rfl, rfl⟩ := hsplit
          exact ⟨data, List.mem_cons_self, h.carried data true _ hlog a k v (lastMoved_append hlast)⟩
      | false =>
        -- the value that the failed write was attempted for
        obtain ⟨a, k, v, l', rfl⟩ := exists_of_endsMoved (h.attempted data false l hlog)
        refine iff_of_false (fun hpub => ?_) nofun
        obtain ⟨data', hmem, -⟩ := hpub [.wrote data false] a k v l' rfl rfl
        cases List.mem_singleton.mp hmem

/-! ## What a dispatch publishes -/

namespace TagRun

/-- A failed commit has to leave the buffers for the next one. -/
def Keeps (r : TagRun) : TagOp → Prop
  | .commit recordLog answers => ∀ e, (r.tags.commitTagsWith recordLog answers).2.2 = .error e →
    (r.step (.commit recordLog answers)).tags.updateTags = true ∧
      (r.step (.commit recordLog answers)).tags.dirty = r.tags.dirty ∧
      (r.step (.commit recordLog answers)).tags.touched = r.tags.touched
  | _ => True

/-- The backend takes what a commit sends. -/
def Accepted (r : TagRun) : TagOp → Prop
  | .commit recordLog answers => r.tags.CommitSucceeds recordLog answers
  | _ => True

/-- The operation sets a tag to another value. -/
def Moves (r : TagRun) : TagOp → Prop
  | .setTag key value opts => r.tags.moves (opts.appKey.getD r.tags.appKey) key value = true
  | _ => False

/-- Every operation that moves a tag has a commit after it. -/
def MovesCommitted : TagRun → List TagOp → Prop
  | _, [] => True
  | r, op :: ops =>
    (r.Moves op → ∃ recordLog answers, .commit recordLog answers ∈ ops) ∧
      MovesCommitted (r.step op) ops

variable {r : TagRun}

theorem keeps_iff_accepted {op : TagOp} : r.Keeps op ↔ r.Accepted op := by
  cases op with
  | setTag key value opts => exact Iff.rfl
  | setLogMode mode => exact Iff.rfl
  | commit recordLog answers =>
    rw [Accepted, ← ProcessorTags.commitTagsWith_ok_iff, Keeps]
    cases hresult : (r.tags.commitTagsWith recordLog answers).2.2 with
    | ok u => exact iff_of_true nofun rfl
    | error e =>
      have hreset : (r.step (.commit recordLog answers)).tags = r.tags.reset :=
        (ProcessorTags.commit_failed_reset hresult).2
      refine iff_of_false (fun h => ?_) nofun
      have hupdate := (h e rfl).1
      rw [hreset] at hupdate
      cases hupdate

/-- A write that failed is the answer to a commit. -/
theorem endsWritten_step {op : TagOp} (hop : r.Accepted op)
    (hr : endsMoved r.log = true ∨ endsWritten r.log = true) :
    endsMoved (r.step op).log = true ∨ endsWritten (r.step op).log = true := by
  cases op with
  | setTag key value opts =>
    cases hm : r.tags.moves (opts.appKey.getD r.tags.appKey) key value with
    | true =>
      left
      simp only [step, hm, if_true, endsMoved]
    | false => simpa only [step, hm, Bool.false_eq_true, if_false] using hr
  | setLogMode mode => exact hr
  | commit recordLog answers =>
    cases hu : r.tags.updateTags with
    | false => rwa [step_commit_idle recordLog answers hu]
    | true =>
      obtain ⟨-, hnone, hsome⟩ := step_commit recordLog answers hu
      cases hagg : r.tags.aggregateUpdate with
      | none => rwa [hnone hagg]
      | some data =>
        right
        have hok : answers.aggregate = .ok () := (hop hu).1 (by rw [hagg]; exact nofun)
        rw [hsome data hagg, hok]
        rfl

theorem endsWritten_exec {r : TagRun} (hr : endsMoved r.log = true ∨ endsWritten r.log = true)
    {ops : List TagOp} (hops : AllSteps TagRun.step Accepted r ops) :
    endsMoved (exec TagRun.step r ops).log = true ∨
      endsWritten (exec TagRun.step r ops).log = true := by
  refine allSteps_induction TagRun.step (P := fun ops =>
    endsMoved (exec TagRun.step r ops).log = true ∨
      endsWritten (exec TagRun.step r ops).log = true) hr ?_ ops hops
  intro ops op ih hop
  rw [exec_concat]
  exact endsWritten_step hop ih

/-- After a commit nothing is left unsent; other operations leave unsent what they move. -/
theorem endsMoved_step (h : Logged r) (op : TagOp) :
    endsMoved (r.step op).log = true ↔
      (∀ recordLog answers, op ≠ .commit recordLog answers) ∧
        (r.Moves op ∨ endsMoved r.log = true) := by
  cases op with
  | setTag key value opts =>
    rw [and_iff_right nofun, Moves]
    cases hm : r.tags.moves (opts.appKey.getD r.tags.appKey) key value with
    | true =>
      simp only [step, hm, if_true, endsMoved, true_or]
    | false => simp only [step, hm, Bool.false_eq_true, if_false, false_or]
  | setLogMode mode =>
    rw [and_iff_right nofun]
    exact ⟨Or.inr, fun hm => hm.resolve_left id⟩
  | commit recordLog answers =>
    refine iff_of_false ?_ fun hnot => hnot.1 recordLog answers rfl
    rw [Bool.not_eq_true]
    have hdirty := (h.commit recordLog answers).dirty
    cases hu : r.tags.updateTags with
    | false =>
      rw [step_commit_idle recordLog answers hu, ← Bool.not_eq_true]
      exact fun hm => by rw [h.marked hm] at hu; cases hu
    | true =>
      rw [(step_commit recordLog answers hu).1] at hdirty
      exact (Bool.not_eq_true' _).mp hdirty.symm

theorem endsMoved_exec (h : Logged r) (ops : List TagOp) :
    endsMoved (exec TagRun.step r ops).log = false ↔
      r.MovesCommitted ops ∧
        (endsMoved r.log = true → ∃ recordLog answers, .commit recordLog answers ∈ ops) := by
  induction ops generalizing r with
  | nil =>
    rw [exec_nil, ← Bool.not_eq_true]
    refine ⟨fun hm => ⟨trivial, fun hm' => absurd hm' hm⟩, fun hm hm' => ?_⟩
    obtain ⟨recordLog, answers, hmem⟩ := hm.2 hm'
    cases hmem
  | cons op ops ih =>
    rw [exec_cons, ih (h.step op), endsMoved_step h op, MovesCommitted]
    by_cases hop : ∃ recordLog answers, op = .commit recordLog answers
    · obtain ⟨recordLog, answers, rfl⟩ := hop
      have hmoves : ¬ r.Moves (.commit recordLog answers) := id
      have hmem : ∃ recordLog' answers', TagOp.commit recordLog' answers' ∈
          .commit recordLog answers :: ops := ⟨_, _, List.mem_cons_self⟩
      have hnot : ¬ ∀ recordLog' answers', TagOp.commit recordLog answers ≠
          .commit recordLog' answers' := fun hne => hne _ _ rfl
      simp only [hmoves, hnot, hmem, false_and, false_implies, true_and, implies_true, and_true]
    · have hne : ∀ recordLog answers, op ≠ .commit recordLog answers :=
        fun recordLog answers he => hop ⟨_, _, he⟩
      have hmem : (∃ recordLog answers, TagOp.commit recordLog answers ∈ op :: ops) ↔
          ∃ recordLog answers, TagOp.commit recordLog answers ∈ ops := by
        simp only [List.mem_cons, (hne _ _).symm, false_or]
      rw [hmem]
      tauto

end TagRun

open TagRun

/-- **A dispatch publishes what was set.**  Every failed commit keeps the buffers, and a
dispatch that succeeds has published every tag that was set to another value than it had,
exactly when no commit fails and the close callback, when it runs, commits what it moves. -/
theorem dispatch_publishes_iff (inv : Invocation) :
    AllSteps TagRun.step Keeps inv.seed (dispatchInvocation inv).2 ∧
        ((dispatchInvocation inv).1 = .ok () →
          Published (exec TagRun.step inv.seed (dispatchInvocation inv).2).log) ↔
      AllSteps TagRun.step Accepted inv.seed (dispatchInvocation inv).2 ∧
        (inv.reachesCommit = true →
          (exec TagRun.step inv.seed
            (inv.callbacks ++ [.commit false inv.answers])).MovesCommitted inv.close) := by
  have hkeeps : Keeps = Accepted := funext₂ fun _ _ => propext keeps_iff_accepted
  rw [hkeeps]
  refine and_congr_right fun haccepted => ?_
  cases hreach : inv.reachesCommit with
  | false =>
    exact iff_of_true (fun hok => absurd hok (dispatch_of_not_reachesCommit hreach)) nofun
  | true =>
    obtain ⟨hran, hok, hops⟩ := dispatch_of_reachesCommit hreach
    have hcommitted : inv.committed = .ok () := by
      obtain ⟨post, hpost⟩ := hran
      rw [← hpost] at haccepted
      have hcommit := ((allSteps_append TagRun.step).mp haccepted).1
      exact ProcessorTags.commitTagsWith_ok_iff.mpr ((allSteps_append TagRun.step).mp hcommit).2.1
    rw [forall_prop_of_true (hok.mpr hcommitted), forall_prop_of_true rfl]
    have hpublished := ((Logged.seed inv).exec (dispatchInvocation inv).2).published_iff
    have hends := endsWritten_exec (r := inv.seed) (Or.inr (by rw [inv.seed_log]; rfl)) haccepted
    rw [hpublished]
    rw [hops hcommitted, exec_append] at hends ⊢
    -- the commit of the dispatch leaves nothing unsent
    have hlogged := (Logged.seed inv).exec (inv.callbacks ++ [.commit false inv.answers])
    have hsent : ¬ endsMoved (exec TagRun.step inv.seed
        (inv.callbacks ++ [.commit false inv.answers])).log = true := by
      rw [exec_concat, endsMoved_step ((Logged.seed inv).exec inv.callbacks)]
      exact fun hm => hm.1 false inv.answers rfl
    have hclose := endsMoved_exec hlogged inv.close
    rw [and_iff_left fun hm => absurd hm hsent] at hclose
    rw [← hclose]
    refine ⟨endsMoved_of_endsWritten, fun hm => hends.resolve_left ?_⟩
    rw [hm]
    exact Bool.false_ne_true

/-- A manual invocation whose handler sets a tag and commits it while the backend is
away, and lets the error be. -/
def failedCommitIgnored : Invocation where
  event := Json.ofList [("op", .string "on_manual_invoke"), ("token", .string "jwt")]
  decodePayload := .ok (some .manualInvoke)
  preHookFilter := true
  setupContext := .ok ⟨"app", .object .empty⟩
  setup := []
  postSetupFilter := ([], true)
  handler :=
    ([.setTag "alarm" (.bool true) ⟨none, false⟩,
      .commit false ⟨.error ⟨"ConnectionError", "connection refused"⟩, .ok ()⟩], .ok .done)
  answers := ⟨.ok (), .ok ()⟩
  close := []

/-- The dispatch succeeds, and its commit has nothing to send: the tag is never published. -/
theorem failed_commit_forgets :
    (dispatchInvocation failedCommitIgnored).1 = .ok () ∧
      ¬ AllSteps TagRun.step Keeps failedCommitIgnored.seed
        (dispatchInvocation failedCommitIgnored).2 ∧
      ¬ Published (exec TagRun.step failedCommitIgnored.seed
        (dispatchInvocation failedCommitIgnored).2).log := by
  have hlog : (exec TagRun.step failedCommitIgnored.seed
      (dispatchInvocation failedCommitIgnored).2).log =
        [.wrote (.object (IndexMap.ofList [("app", Json.ofList [("alarm", .bool true)])])) false,
          .moved "app" "alarm" (.bool true)] := rfl
  refine ⟨rfl, fun hkeeps => ?_, fun hpublished => ?_⟩
  · -- the second operation of the handler is the commit that fails
    have hcommit := (hkeeps.2.1 _ rfl).1
    cases hcommit
  · rw [hlog] at hpublished
    obtain ⟨data, hmem, -⟩ := hpublished [_] "app" "alarm" (.bool true) [] rfl rfl
    cases List.mem_singleton.mp hmem

end Doover
