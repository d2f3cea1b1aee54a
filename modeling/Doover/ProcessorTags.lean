import Doover.JsonValue

/-! # The tags of a processor invocation

A processor has a snapshot of the `tag_values` aggregate, which sets change in place.
`dirty` is what moved since the last commit, `touched` what was set, and a commit takes
both and sends, outside the lock, the aggregate and then a logged message.
-/

namespace Doover
open Json

/-- What a commit writes to logged history. -/
inductive LogMode where
  | always
  | never
  | onlyChanged
  | onlySet
deriving DecidableEq

structure SetProcessorTagOptions where
  /-- Write under another app's key. -/
  appKey : Option String
  log : Bool

/-- A `{app_key: {tag: value}}` buffer. -/
abbrev TagBuffer := IndexMap String Json

/-- What `buffer[app_key][key]` is. -/
def TagBuffer.scoped (buffer : TagBuffer) (appKey key : String) : Option Json :=
  (buffer.get? appKey).bind fun m => m.get? key

/-- `buffer[app_key][key] = value`. -/
def insertNested (buffer : TagBuffer) (appKey key : String) (value : Json) : TagBuffer :=
  match (buffer.get? appKey).bind asObject with
  | some inner => buffer.insert appKey (.object (inner.insert key value))
  | none => buffer.insert appKey (Json.ofList [(key, value)])

/-- Null and the empty object, as Python has it. -/
def isFalsy : Json → Bool
  | .null => true
  | .object m => m.isEmpty
  | _ => false

/-- What a commit publishes of a buffer: the other apps' keys only when they were
written. -/
def scopePayload (source : TagBuffer) (appKey : String) (external : Bool) : Option Json :=
  if external then if source.isEmpty then none else some (.object source)
  else
    match source.get? appKey with
    | some own => if isFalsy own then none else some (Json.ofList [(appKey, own)])
    | none => none

theorem scoped_insertNested (buffer : TagBuffer) (appKey key a k : String) (value : Json) :
    (insertNested buffer appKey key value).scoped a k =
      if a = appKey ∧ k = key then some value else buffer.scoped a k := by
  by_cases ha : a = appKey
  · subst ha
    rw [insertNested, TagBuffer.scoped, TagBuffer.scoped]
    have hown : ∀ own, (buffer.insert a own).get? a = some own := fun own =>
      IndexMap.get?_insert_self ..
    cases happ : buffer.get? a with
    | none =>
      simp only [Option.bind_none, hown, Option.bind_some, true_and, get?_ofList_singleton]
    | some inner =>
      cases inner with
      | object m =>
        simp only [Option.bind_some, asObject, hown, get?_object, true_and]
        exact IndexMap.get?_insert ..
      | _ =>
        simp only [Option.bind_some, asObject, hown, true_and, get?_ofList_singleton]
        rfl
  · have hne : ¬ (a = appKey ∧ k = key) := fun h => ha h.1
    rw [if_neg hne, insertNested, TagBuffer.scoped, TagBuffer.scoped]
    split <;> rw [IndexMap.get?_insert_of_ne _ ha]

theorem isEmpty_of_scoped {buffer : TagBuffer} {a k : String} {v : Json}
    (h : buffer.scoped a k = some v) : buffer.isEmpty = false := by
  obtain ⟨m, hm, -⟩ := Option.bind_eq_some_iff.mp h
  exact IndexMap.isEmpty_eq_false_iff.mpr ⟨a, m, hm⟩

theorem isEmpty_insertNested (buffer : TagBuffer) (appKey key : String) (value : Json) :
    (insertNested buffer appKey key value).isEmpty = false := by
  refine isEmpty_of_scoped (a := appKey) (k := key) (v := value) ?_
  rw [scoped_insertNested, if_pos ⟨rfl, rfl⟩]

/-- A value that has a key is no empty payload. -/
theorem isFalsy_of_get? {j v : Json} {k : String} (h : j.get? k = some v) : isFalsy j = false := by
  cases j with
  | object m => exact IndexMap.isEmpty_eq_false_iff.mpr ⟨k, v, h⟩
  | _ => cases h

/-- The payload of a commit that keeps to its own app. -/
theorem scopePayload_own_eq_some_iff {source : TagBuffer} {appKey : String} {o : Json} :
    scopePayload source appKey false = some o ↔
      ∃ own, source.get? appKey = some own ∧ isFalsy own = false ∧
        o = Json.ofList [(appKey, own)] := by
  rw [scopePayload, if_neg Bool.false_ne_true]
  constructor
  · intro h
    split at h
    · rename_i own hown
      split at h
      · cases h
      · rename_i hfalsy
        exact ⟨own, hown, (Bool.not_eq_true _).mp hfalsy, (Option.some.inj h).symm⟩
    · cases h
  · rintro ⟨own, hown, hfalsy, rfl⟩
    simp only [hown, hfalsy, Bool.false_eq_true, if_false]

structure ProcessorTags where
  appKey : String
  tagValues : TagBuffer
  updateTags : Bool
  recordTagUpdate : Bool
  updateExternalTags : Bool
  logMode : LogMode
  /-- Tags whose value moved. -/
  dirty : TagBuffer
  /-- Tags that were set, changed or not. -/
  touched : TagBuffer

/-- An error of the backend, by its type name and its text. -/
structure DooverError where
  typeName : String
  message : String

/-- What the backend answers to the writes of a commit. -/
structure CommitAnswers where
  aggregate : Except DooverError Unit
  message : Except DooverError Unit

/-- A write to the tag channel, and whether it succeeded. -/
inductive TagChannelWrite where
  | aggregate (data : Json) (ok : Bool)
  | message (data : Json) (ok : Bool)

namespace ProcessorTags

def new (appKey : String) (tagValues : Json) (recordTagUpdate : Bool) : ProcessorTags where
  appKey
  tagValues := (tagValues.asObject).getD .empty
  updateTags := false
  recordTagUpdate
  updateExternalTags := false
  logMode := .always
  dirty := .empty
  touched := .empty

variable (st : ProcessorTags)

def getTagScoped (appKey key : String) : Option Json := st.tagValues.scoped appKey key

def getTag (key : String) : Option Json := st.getTagScoped st.appKey key

def setLogMode (mode : LogMode) : ProcessorTags := { st with logMode := mode }

/-- The set changes the value; a missing one is null. -/
def moves (appKey key : String) (value : Json) : Bool :=
  !((st.getTagScoped appKey key).getD .null == value)

/-- Buffered; nothing is published until a commit. -/
def setTagWith (key : String) (value : Json) (opts : SetProcessorTagOptions) : ProcessorTags :=
  let appKey := opts.appKey.getD st.appKey
  let touched := insertNested st.touched appKey key value
  let recordTagUpdate := st.recordTagUpdate || opts.log
  let updateExternalTags := st.updateExternalTags || appKey ≠ st.appKey
  if st.moves appKey key value then
    { st with
      touched, recordTagUpdate, updateExternalTags
      tagValues := insertNested st.tagValues appKey key value
      dirty := insertNested st.dirty appKey key value
      updateTags := true }
  else if opts.log || st.logMode = .onlySet then
    { st with touched, recordTagUpdate, updateExternalTags, updateTags := true }
  else { st with touched }

/-- The current values this commit is about. -/
def update : Option Json :=
  if st.updateExternalTags then
    if st.tagValues.isEmpty then none else some (.object st.tagValues)
  else scopePayload st.tagValues st.appKey false

/-- The aggregate is only pushed when a value moved. -/
def aggregateUpdate : Option Json := if st.dirty.isEmpty then none else st.update

def logPayload (recordLog : Bool) : Option Json :=
  if st.recordTagUpdate || recordLog then
    match st.logMode with
    | .always => st.update
    | .never => none
    | .onlyChanged => scopePayload st.dirty st.appKey st.updateExternalTags
    | .onlySet => scopePayload st.touched st.appKey st.updateExternalTags
  else none

/-- The buffers are reset under the lock, before anything is sent. -/
def reset : ProcessorTags :=
  { st with updateTags := false, dirty := .empty, touched := .empty }

/-- The logged message, the second write of a commit. -/
def sendLog (payload : Option Json) (answers : CommitAnswers) :
    List TagChannelWrite × Except DooverError Unit :=
  match payload, answers.message with
  | none, _ => ([], .ok ())
  | some data, .ok () => ([.message data true], .ok ())
  | some data, .error e => ([.message data false], .error e)

/-- Publish what is buffered. -/
def commitTagsWith (recordLog : Bool) (answers : CommitAnswers) :
    ProcessorTags × List TagChannelWrite × Except DooverError Unit :=
  if !st.updateTags then (st, [], .ok ())
  else
    match st.aggregateUpdate, answers.aggregate with
    | some data, .error e => (st.reset, [.aggregate data false], .error e)
    | some data, .ok () =>
      let (writes, result) := sendLog (st.logPayload recordLog) answers
      (st.reset, .aggregate data true :: writes, result)
    | none, _ =>
      let (writes, result) := sendLog (st.logPayload recordLog) answers
      (st.reset, writes, result)

variable {st}

/-! ## What a set buffers -/

@[simp] theorem setTagWith_appKey (key : String) (value : Json) (opts : SetProcessorTagOptions) :
    (st.setTagWith key value opts).appKey = st.appKey := by
  simp only [setTagWith]
  split
  · rfl
  · split <;> rfl

theorem setTagWith_of_moves {key : String} {value : Json} {opts : SetProcessorTagOptions}
    {a : String} (ha : opts.appKey.getD st.appKey = a) (h : st.moves a key value = true) :
    (st.setTagWith key value opts).tagValues = insertNested st.tagValues a key value ∧
      (st.setTagWith key value opts).dirty = insertNested st.dirty a key value ∧
      (st.setTagWith key value opts).updateTags = true ∧
      (st.setTagWith key value opts).updateExternalTags =
        (st.updateExternalTags || decide (a ≠ st.appKey)) := by
  subst ha
  have hset : st.setTagWith key value opts = _ := if_pos h
  exact ⟨congrArg tagValues hset, congrArg dirty hset, congrArg updateTags hset,
    congrArg updateExternalTags hset⟩

/-- A set to the value the tag has changes no value; it may only ask for a commit. -/
theorem setTagWith_of_not_moves {key : String} {value : Json} {opts : SetProcessorTagOptions}
    (h : st.moves (opts.appKey.getD st.appKey) key value = false) :
    (st.setTagWith key value opts).tagValues = st.tagValues ∧
      (st.setTagWith key value opts).dirty = st.dirty ∧
      (st.updateTags = true → (st.setTagWith key value opts).updateTags = true) ∧
      (st.updateExternalTags = true →
        (st.setTagWith key value opts).updateExternalTags = true) := by
  simp only [setTagWith, h, Bool.false_eq_true, if_false]
  split
  · refine ⟨rfl, rfl, fun _ => rfl, fun hexternal => ?_⟩
    show (st.updateExternalTags || _) = true
    rw [hexternal, Bool.true_or]
  · exact ⟨rfl, rfl, id, id⟩

/-! ## What is published -/

theorem update_eq_scopePayload :
    st.update = scopePayload st.tagValues st.appKey st.updateExternalTags := by
  rw [update]
  cases st.updateExternalTags <;> rfl

/-- A value that the payload is about is in it. -/
theorem update_of_scoped {a k : String} {v : Json} (hv : st.getTagScoped a k = some v)
    (hexternal : a ≠ st.appKey → st.updateExternalTags = true) :
    ∃ data, st.update = some data ∧ (data.get? a).bind (·.get? k) = some v := by
  rw [getTagScoped] at hv
  by_cases he : st.updateExternalTags = true
  · refine ⟨.object st.tagValues, ?_, hv⟩
    rw [update, if_pos he, isEmpty_of_scoped hv]
    rfl
  · obtain rfl : a = st.appKey := by
      by_contra hne
      exact he (hexternal hne)
    obtain ⟨own, hown, hk⟩ := Option.bind_eq_some_iff.mp hv
    refine ⟨Json.ofList [(st.appKey, own)], ?_, ?_⟩
    · rw [update, if_neg he]
      exact scopePayload_own_eq_some_iff.mpr ⟨own, hown, isFalsy_of_get? hk, rfl⟩
    · have hget : (Json.ofList [(st.appKey, own)]).get? st.appKey = some own :=
        (get?_ofList_singleton ..).trans (if_pos rfl)
      rw [hget]
      exact hk

/-- The backend takes every write that the commit makes. -/
def CommitSucceeds (st : ProcessorTags) (recordLog : Bool) (answers : CommitAnswers) : Prop :=
  st.updateTags = true →
    (st.aggregateUpdate ≠ none → answers.aggregate = .ok ()) ∧
      (st.logPayload recordLog ≠ none → answers.message = .ok ())

theorem sendLog_ok_iff {payload : Option Json} {answers : CommitAnswers} :
    (sendLog payload answers).2 = .ok () ↔ (payload ≠ none → answers.message = .ok ()) := by
  cases payload with
  | none => exact iff_of_true rfl fun h => absurd rfl h
  | some data =>
    cases hm : answers.message with
    | ok u =>
      refine iff_of_true ?_ fun _ => rfl
      simp only [sendLog, hm]
    | error e =>
      refine iff_of_false ?_ fun h => nomatch h (Option.some_ne_none data)
      simp only [sendLog, hm]
      exact nofun

theorem commitTagsWith_ok_iff {recordLog : Bool} {answers : CommitAnswers} :
    (st.commitTagsWith recordLog answers).2.2 = .ok () ↔ CommitSucceeds st recordLog answers := by
  by_cases hu : st.updateTags = true
  · have hnot : ¬ (!st.updateTags) = true := by simp [hu]
    rw [commitTagsWith, if_neg hnot, CommitSucceeds, forall_prop_of_true hu]
    cases hagg : st.aggregateUpdate with
    | none =>
      rw [← sendLog_ok_iff]
      exact (and_iff_right fun h => absurd rfl h).symm
    | some data =>
      cases ha : answers.aggregate with
      | ok u =>
        rw [← sendLog_ok_iff]
        exact (and_iff_right fun _ => rfl).symm
      | error e =>
        exact iff_of_false nofun fun h => nomatch h.1 (Option.some_ne_none data)
  · have hnot : (!st.updateTags) = true := by simpa using hu
    rw [commitTagsWith, if_pos hnot]
    exact iff_of_true rfl fun h => absurd h hu

/-- **A commit that fails keeps nothing.** -/
theorem commit_failed_reset {recordLog : Bool} {answers : CommitAnswers} {e : DooverError}
    (h : (st.commitTagsWith recordLog answers).2.2 = .error e) :
    st.updateTags = true ∧ (st.commitTagsWith recordLog answers).1 = st.reset := by
  by_cases hu : st.updateTags = true
  · refine ⟨hu, ?_⟩
    have hnot : ¬ (!st.updateTags) = true := by simp [hu]
    rw [commitTagsWith, if_neg hnot]
    cases st.aggregateUpdate with
    | none => rfl
    | some data => cases answers.aggregate <;> rfl
  · have hnot : (!st.updateTags) = true := by simpa using hu
    rw [commitTagsWith, if_pos hnot] at h
    cases h

end ProcessorTags
end Doover
