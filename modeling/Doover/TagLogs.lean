import Doover.TagWrites
import Doover.TagsSequential

/-! # The log buckets

A write that is to be logged goes into the immediate bucket, which the next commit turns
into a message, and is taken out of the periodic one; any other goes into the periodic
bucket, which becomes a message when its time has come.  Triggers promote a write to a
logged one.

Seen from one path, with no written path a prefix of another, the messages so far, the
immediate bucket and the periodic one make a list of values, oldest first.  A write puts
its value last in it, taking out at most what a bucket had, and a commit leaves the list as
it is.  So the list is part of the values written and ends in the last of them
(`logs_complete`).
-/

namespace Doover
open Json

/-! ## Stripping paths -/

theorem valueAt_of_isEmpty {m : IndexMap String Json} (h : m.isEmpty = true) (p : List String) :
    (Json.object m).valueAt p = none := by
  cases p with
  | nil =>
    rw [valueAt, lookup_nil]
    rfl
  | cons k p => rw [valueAt_cons, IndexMap.isEmpty_iff.mp h k, Option.bind_none]

/-- An object that is dropped because nothing is left of it has no value. -/
theorem valueAt_stripEntry {v : Json} {p : List String}
    (ih : ∀ e o, v = .object o → (stripPaths (.object e) (.object o)).valueAt p =
      if (Json.object o).Misses p then (Json.object e).valueAt p else none)
    (existing : Option Json) :
    ((stripEntry v existing).bind fun e => e.valueAt p) =
      if v.Misses p then existing.bind fun e => e.valueAt p else none := by
  cases existing with
  | none => exact (ite_self none).symm
  | some e =>
    rw [stripEntry, Option.bind_some, Option.bind_some]
    by_cases hv : v.isObject = true
    · obtain ⟨o, rfl⟩ := exists_of_isObject hv
      by_cases he : e.isObject = true
      · obtain ⟨e, rfl⟩ := exists_of_isObject he
        obtain ⟨r, hr, -⟩ := stripPaths_object e o
        have hrest := ih e o rfl
        rw [hr] at hrest
        simp only [isObject, Bool.and_self, if_true, hr, asObject, Option.any_some]
        by_cases hempty : r.isEmpty = true
        · rw [if_pos hempty, Option.bind_none, ← hrest, valueAt_of_isEmpty hempty]
        · rw [if_neg hempty, Option.bind_some, hrest]
      · rw [Bool.not_eq_true] at he
        rw [he, Bool.and_false, if_neg Bool.false_ne_true, Option.bind_none]
        -- a value has nothing below it
        split
        · rename_i hmiss
          cases p with
          | nil => exact absurd hmiss (not_misses_nil _)
          | cons k p => rw [valueAt, lookup_cons_of_not_isObject he, Option.filter_none]
        · rfl
    · have hmiss : ¬ v.Misses p := fun h => hv h.isObject
      rw [Bool.not_eq_true] at hv
      rw [hv, Bool.false_and, if_neg Bool.false_ne_true, Option.bind_none, if_neg hmiss]

/-- **What is left of a strip.**  The values at the paths that are missed. -/
theorem valueAt_stripPaths (m d : IndexMap String Json) (p : List String) :
    (stripPaths (.object m) (.object d)).valueAt p =
      if (Json.object d).Misses p then (Json.object m).valueAt p else none := by
  induction p generalizing m d with
  | nil =>
    obtain ⟨r, hr, -⟩ := stripPaths_object m d
    rw [hr, if_neg (not_misses_nil _), valueAt, lookup_nil]
    rfl
  | cons k p ih =>
    obtain ⟨r, hr, hrk⟩ := stripPaths_object m d
    rw [hr, valueAt_cons, valueAt_cons, hrk k]
    cases hd : d.get? k with
    | none =>
      have hmiss : (Json.object d).Misses (k :: p) := by
        rw [Misses, hd]
        trivial
      rw [if_pos hmiss, Option.elim_none]
    | some v =>
      have hmiss : (Json.object d).Misses (k :: p) ↔ v.Misses p := by rw [Misses, hd]
      exact (valueAt_stripEntry (fun e o _ => ih e o) (m.get? k)).trans (if_congr hmiss.symm rfl rfl)

namespace TagLogs
open StepRuns

/-! ## Runs -/

/-- A call of the app's loop; every request of it succeeds. -/
inductive Call where
  | set (appKey key : String) (value : Json) (opts : SetTagOptions)
  | commit (instant : ℕ) (unixMs : ℚ)

/-- What a run did, oldest first. -/
inductive Entry where
  /-- A set that was not dropped, and whether it was to be logged, by its options or by a
  trigger. -/
  | set (path : List String) (value : Json) (logged : Bool)
  | commit
  /-- A log message was created. -/
  | message (data : Json)

structure Run where
  st : TagsState
  trace : List Entry

/-- Nothing is waiting to be logged; triggers, live tags and the rest as they may be. -/
def start (st : TagsState) : Run :=
  ⟨{ st with pendingLog := emptyObject, pendingImmediateLog := emptyObject }, []⟩

/-- What `set_tag` adds to the trace. -/
def setEntry (st : TagsState) (appKey key : String) (value : Json) (opts : SetTagOptions) :
    Option Entry :=
  let kp := KeyPath.mkScoped appKey [key]
  let r := st.evaluateLogTriggers kp value
  if r.1.suppresses (kp.construct value) opts then none
  else some (.set kp.path value (opts.log || r.2))

/-- The log messages among the requests of a call. -/
def logMessages (requests : List (Request × Bool)) : List Json :=
  requests.filterMap fun
    | (.createMessage data, _) => some data
    | _ => none

def step (r : Run) : Call → Run
  | .set appKey key value opts =>
    ⟨(r.st.setTagCall appKey key value opts true).st,
      r.trace ++ (setEntry r.st appKey key value opts).toList⟩
  | .commit instant unixMs =>
    let o := r.st.commitTagsCall ⟨instant, unixMs, true, true, true, true⟩
    ⟨o.st, r.trace ++ .commit :: (logMessages o.requests).map .message⟩

def Entry.data? : Entry → Option Json
  | .message data => some data
  | _ => none

def Entry.valueSet? (p : List String) : Entry → Option Json
  | .set q value _ => if q = p then some value else none
  | _ => none

/-- The log messages of a trace. -/
def messages (trace : List Entry) : List Json := trace.filterMap Entry.data?

/-- The values set at a path. -/
def setsAt (p : List String) (trace : List Entry) : List Json :=
  trace.filterMap (Entry.valueSet? p)

/-- The values that these objects have at a path. -/
def valuesAt (p : List String) (logs : List Json) : List Json := logs.filterMap (·.valueAt p)

/-- The log messages so far, then what the two buckets hold back. -/
def Run.logs (r : Run) : List Json :=
  messages r.trace ++ [r.st.pendingImmediateLog, r.st.pendingLog]

/-- The path and the value of a set. -/
def Call.write : Call → Option (List String × Json)
  | .set appKey key value _ => some ((KeyPath.mkScoped appKey [key]).path, value)
  | .commit _ _ => none

/-- No set writes an object, and none of the paths set is a proper prefix of another. -/
structure Separate (calls : List Call) : Prop where
  leaf : ∀ c ∈ calls, ∀ w, c.write = some w → w.2.isObject = false
  prefixFree : ∀ c ∈ calls, ∀ c' ∈ calls, ∀ w w', c.write = some w → c'.write = some w' →
    w.1 <+: w'.1 → w.1 = w'.1

/-! ## The buckets after a call -/

/-- **What a set does to the buckets.**  Nothing when it is dropped; else it goes into one
of them, and out of the periodic one when it is to be logged. -/
theorem setTagCall_logs (st : TagsState) (appKey key : String) (value : Json)
    (opts : SetTagOptions) :
    let kp := KeyPath.mkScoped appKey [key]
    let st' := (st.setTagCall appKey key value opts true).st
    (setEntry st appKey key value opts = none ∧
        st'.pendingImmediateLog = st.pendingImmediateLog ∧ st'.pendingLog = st.pendingLog) ∨
      (setEntry st appKey key value opts = some (.set kp.path value true) ∧
        st'.pendingImmediateLog = applyDiff st.pendingImmediateLog (kp.construct value) false ∧
        st'.pendingLog = stripPaths st.pendingLog (kp.construct value)) ∨
      (setEntry st appKey key value opts = some (.set kp.path value false) ∧
        st'.pendingImmediateLog = st.pendingImmediateLog ∧
        st'.pendingLog = applyDiff st.pendingLog (kp.construct value) false) := by
  intro kp st'
  obtain ⟨ts, hts⟩ := st.evaluateLogTriggers_eq kp value
  have hcall : st' = (({ st with logTriggers := ts } : TagsState).setNestedTagsCall
      (kp.construct value)
      { opts with log := opts.log || (st.evaluateLogTriggers kp value).2 } true).st := by
    rw [← hts]
    rfl
  have hentry : setEntry st appKey key value opts =
      if ({ st with logTriggers := ts } : TagsState).suppresses (kp.construct value) opts then none
      else some (.set kp.path value (opts.log || (st.evaluateLogTriggers kp value).2)) := by
    rw [← hts]
    rfl
  rw [hentry, hcall]
  generalize (st.evaluateLogTriggers kp value).2 = fired
  have hsup : ({ st with logTriggers := ts } : TagsState).suppresses (kp.construct value)
      { opts with log := opts.log || fired } =
        ({ st with logTriggers := ts } : TagsState).suppresses (kp.construct value) opts := rfl
  cases hs : ({ st with logTriggers := ts } : TagsState).suppresses (kp.construct value) opts with
  | true =>
    rw [TagsState.setNestedTagsCall_of_suppresses _ _ _ _ (hsup.trans hs)]
    exact .inl ⟨rfl, rfl, rfl⟩
  | false =>
    right
    rw [TagsState.setNestedTagsCall, TagsState.setNestedTags, hsup, hs]
    cases opts.log || fired with
    | true => cases hf : opts.flush <;> exact .inl ⟨rfl, rfl, rfl⟩
    | false => cases hf : opts.flush <;> exact .inr ⟨rfl, rfl, rfl⟩

section Commit
variable (st : TagsState)

theorem logMessages_append (rs rs' : List (Request × Bool)) :
    logMessages (rs ++ rs') = logMessages rs ++ logMessages rs' := List.filterMap_append ..

theorem logMessages_live (data : Option Json) :
    logMessages (data.toList.map fun data => (Request.oneShotMessage data, true)) = [] := by
  cases data <;> rfl

theorem flushTagsCall_logs :
    let o := st.flushTagsCall true
    o.ok = true ∧ o.st.pendingImmediateLog = st.pendingImmediateLog ∧
      o.st.pendingLog = st.pendingLog ∧ logMessages o.requests = [] := by
  cases hd : st.dirty with
  | false =>
    rw [TagsState.flushTagsCall_of_clean st true hd]
    exact ⟨rfl, rfl, rfl, rfl⟩
  | true =>
    rw [TagsState.flushTagsCall_of_dirty st true hd]
    exact ⟨rfl, rfl, rfl, rfl⟩

theorem flushImmediateLogsCall_logs :
    let o := st.flushImmediateLogsCall true
    o.ok = true ∧
      logMessages o.requests =
        (if isEmptyObject st.pendingImmediateLog then [] else [st.pendingImmediateLog]) ∧
      o.st.pendingImmediateLog =
        (if isEmptyObject st.pendingImmediateLog then st.pendingImmediateLog else emptyObject) ∧
      o.st.pendingLog = st.pendingLog := by
  cases hempty : isEmptyObject st.pendingImmediateLog with
  | true =>
    rw [TagsState.flushImmediateLogsCall_of_empty st true hempty]
    exact ⟨rfl, rfl, rfl, rfl⟩
  | false =>
    rw [TagsState.flushImmediateLogsCall_of_nonempty st true hempty]
    exact ⟨rfl, rfl, rfl, rfl⟩

/-- A periodic log that is due is not empty, so it is sent. -/
theorem flushLogsCall_logs (now : ℕ) (h : st.periodicDue now = true) :
    let o := st.flushLogsCall now true
    logMessages o.requests = [st.pendingLog] ∧
      o.st.pendingImmediateLog = st.pendingImmediateLog ∧ o.st.pendingLog = emptyObject := by
  rw [TagsState.periodicDue, Bool.and_eq_true, Bool.not_eq_true'] at h
  rw [TagsState.flushLogsCall_of_nonempty st true now h.1]
  exact ⟨rfl, rfl, rfl⟩

/-- **What a commit does to the buckets.**  The immediate one becomes a message, if there is
something in it, and then the periodic one, if it is due. -/
theorem commitTagsCall_logs (instant : ℕ) (unixMs : ℚ) :
    let o := st.commitTagsCall ⟨instant, unixMs, true, true, true, true⟩
    ∃ due : Bool,
      logMessages o.requests =
        (if isEmptyObject st.pendingImmediateLog then [] else [st.pendingImmediateLog]) ++
          (if due then [st.pendingLog] else []) ∧
      o.st.pendingImmediateLog =
        (if isEmptyObject st.pendingImmediateLog then st.pendingImmediateLog else emptyObject) ∧
      o.st.pendingLog = if due then emptyObject else st.pendingLog := by
  obtain ⟨hok, hi, hl, hm⟩ := flushTagsCall_logs st
  simp only [TagsState.commitTagsCall]
  generalize st.flushTagsCall true = tags at hok hi hl hm
  obtain ⟨hok', hm', hi', hl'⟩ := flushImmediateLogsCall_logs tags.st
  have hlogs := flushLogsCall_logs (tags.st.flushImmediateLogsCall true).st instant
  rw [hi] at hm' hi'
  rw [hl] at hl'
  generalize tags.st.flushImmediateLogsCall true = immediate at hok' hm' hi' hl' hlogs
  simp only [hok, hok', Bool.not_true, Bool.false_eq_true, if_false]
  refine ⟨immediate.st.periodicDue instant, ?_⟩
  cases hdue : immediate.st.periodicDue instant with
  | true =>
    obtain ⟨hm'', hi'', hl''⟩ := hlogs hdue
    simp only [if_true, logMessages_append, logMessages_live, hm, hm', hm'', List.nil_append]
    exact ⟨by rw [hl'], hi''.trans hi', hl''⟩
  | false =>
    simp only [Bool.false_eq_true, if_false, logMessages_append, logMessages_live, hm, hm',
      List.nil_append, List.append_nil]
    exact ⟨trivial, hi', hl'⟩

end Commit

/-! ## The list of a path -/

section Lists
variable (p : List String) (trace : List Entry)

theorem messages_append (t t' : List Entry) : messages (t ++ t') = messages t ++ messages t' :=
  List.filterMap_append ..

theorem setsAt_append (t t' : List Entry) :
    setsAt p (t ++ t') = setsAt p t ++ setsAt p t' := List.filterMap_append ..

theorem messages_set (q : List String) (value : Json) (logged : Bool) :
    messages (trace ++ [.set q value logged]) = messages trace := by
  rw [messages_append]
  exact List.append_nil _

theorem setsAt_set (q : List String) (value : Json) (logged : Bool) :
    setsAt p (trace ++ [.set q value logged]) =
      setsAt p trace ++ if q = p then [value] else [] := by
  rw [setsAt_append]
  by_cases hq : q = p <;> simp [setsAt, Entry.valueSet?, hq]

theorem messages_commit (logs : List Json) :
    messages (trace ++ .commit :: logs.map .message) = messages trace ++ logs := by
  rw [messages_append]
  refine congrArg _ ?_
  rw [messages, List.filterMap_cons_none rfl, List.filterMap_map]
  exact List.filterMap_some

theorem setsAt_commit (logs : List Json) :
    setsAt p (trace ++ .commit :: logs.map .message) = setsAt p trace := by
  rw [setsAt_append, List.append_right_eq_self, setsAt, List.filterMap_cons_none rfl,
    List.filterMap_map, List.filterMap_eq_nil_iff]
  exact fun m _ => rfl

theorem valuesAt_append (ms ms' : List Json) :
    valuesAt p (ms ++ ms') = valuesAt p ms ++ valuesAt p ms' := List.filterMap_append ..

@[simp] theorem valuesAt_nil : valuesAt p [] = [] := rfl

@[simp] theorem valuesAt_singleton (m : Json) : valuesAt p [m] = (m.valueAt p).toList := by
  rw [valuesAt, List.filterMap_cons]
  cases m.valueAt p <;> rfl

theorem valuesAt_logs (r : Run) :
    valuesAt p r.logs = valuesAt p (messages r.trace) ++
      ((r.st.pendingImmediateLog.valueAt p).toList ++ (r.st.pendingLog.valueAt p).toList) := by
  rw [Run.logs, valuesAt_append, ← valuesAt_singleton, ← valuesAt_singleton]
  exact congrArg _ (valuesAt_append p [_] [_])

/-- The last value is the last of the values. -/
theorem lastValue_eq_getLast? (ms : List Json) :
    lastValue ms p = (valuesAt p ms).getLast? := by
  induction ms using List.reverseRecOn with
  | nil => rfl
  | append_singleton ms m ih =>
    rw [lastValue, List.foldl_append, List.foldl_cons, List.foldl_nil, ← lastValue, ih,
      valuesAt_append, valuesAt_singleton, List.getLast?_append]
    cases m.valueAt p <;> rfl

end Lists

/-! ## What every call keeps -/

/-- What is logged of a path, or about to be, is part of what was set there, and at the
paths of `P`, the only ones that are set, it ends in the last of it. -/
structure Inv (P : List String → Prop) (r : Run) : Prop where
  known : ∀ p value logged, .set p value logged ∈ r.trace → P p
  immediate : r.st.pendingImmediateLog.isObject = true
  periodic : r.st.pendingLog.isObject = true
  part : ∀ p, (valuesAt p r.logs).Sublist (setsAt p r.trace)
  last : ∀ p, P p → (valuesAt p r.logs).getLast? = (setsAt p r.trace).getLast?

theorem inv_start (P : List String → Prop) (st : TagsState) : Inv P (start st) := by
  have hempty : ∀ p, valuesAt p (start st).logs = [] := by
    intro p
    rw [valuesAt_logs]
    show [] ++ ((emptyObject.valueAt p).toList ++ (emptyObject.valueAt p).toList) = []
    rw [emptyObject, valueAt_empty]
    rfl
  constructor
  · intro p value logged hmem
    cases hmem
  · rfl
  · rfl
  · intro p
    rw [hempty]
    exact List.nil_sublist _
  · intro p _
    rw [hempty]
    rfl

section Steps
variable {P : List String → Prop} {r : Run} {q : List String} {value : Json} {st : TagsState}

/-- What a write of one tag leaves of another path's value in a bucket. -/
theorem afterWrite_construct_sublist (hv : value.isObject = false) {p : List String}
    (hp : q ≠ p) (bucket : Json) :
    (afterWrite p (bucket.valueAt p) (KeyPath.construct ⟨q⟩ value)).toList.Sublist
      (bucket.valueAt p).toList := by
  have hnone : (KeyPath.construct ⟨q⟩ value).valueAt p = none := by
    cases hx : (KeyPath.construct ⟨q⟩ value).valueAt p with
    | none => rfl
    | some x =>
      obtain ⟨hl, hxl⟩ := valueAt_eq_some.mp hx
      exact absurd (KeyPath.eq_of_lookup_construct hv hxl hl).1.symm hp
  rw [afterWrite, hnone, Option.none_or]
  split
  · exact List.Sublist.refl _
  · exact List.nil_sublist _

/-- A write of one of the paths misses the others. -/
theorem misses_construct_of_ne (value : Json) (hP : ∀ p q, P p → P q → p <+: q → p = q)
    (hq : P q) {p : List String} (hp : P p) (hne : q ≠ p) : (KeyPath.construct ⟨q⟩ value).Misses p :=
  KeyPath.misses_construct value (fun h => hne (hP q p hq hp h))
    fun h => hne (hP p q hp hq h).symm

/-- A set puts its value last in the list of its path, where something may be taken out,
and takes out at most something of the others. -/
theorem Inv.set (h : Inv P r) (hq : P q) {logged : Bool} (hi : st.pendingImmediateLog.isObject = true)
    (hl : st.pendingLog.isObject = true)
    (hself : ∃ front, valuesAt q (⟨st, r.trace ++ [.set q value logged]⟩ : Run).logs =
      front ++ [value] ∧ front.Sublist (valuesAt q r.logs))
    (hother : ∀ p, q ≠ p → (valuesAt p (⟨st, r.trace ++ [.set q value logged]⟩ : Run).logs).Sublist
      (valuesAt p r.logs))
    (hsame : ∀ p, P p → q ≠ p → valuesAt p (⟨st, r.trace ++ [.set q value logged]⟩ : Run).logs =
      valuesAt p r.logs) : Inv P ⟨st, r.trace ++ [.set q value logged]⟩ := by
  obtain ⟨front, hfront, hsub⟩ := hself
  refine ⟨fun p v b hmem => ?_, hi, hl, fun p => ?_, fun p hPp => ?_⟩
  · rcases List.mem_append.mp hmem with hmem | hmem
    · exact h.known p v b hmem
    · cases List.mem_singleton.mp hmem
      exact hq
  · rw [setsAt_set]
    by_cases hp : q = p
    · subst hp
      rw [hfront, if_pos rfl]
      exact (hsub.trans (h.part q)).append (List.Sublist.refl _)
    · rw [if_neg hp, List.append_nil]
      exact (hother p hp).trans (h.part p)
  · rw [setsAt_set]
    by_cases hp : q = p
    · subst hp
      rw [hfront, if_pos rfl, List.getLast?_concat, List.getLast?_concat]
    · rw [if_neg hp, List.append_nil, hsame p hPp hp]
      exact h.last p hPp

/-- A set that is dropped. -/
theorem Inv.dropped (h : Inv P r) (hi : st.pendingImmediateLog = r.st.pendingImmediateLog)
    (hl : st.pendingLog = r.st.pendingLog) : Inv P ⟨st, r.trace⟩ := by
  have hlogs : (⟨st, r.trace⟩ : Run).logs = r.logs := by
    rw [Run.logs, hi, hl]
    rfl
  refine ⟨h.known, hi ▸ h.immediate, hl ▸ h.periodic, fun p => ?_, fun p hp => ?_⟩
  · rw [hlogs]
    exact h.part p
  · rw [hlogs]
    exact h.last p hp

variable (h : Inv P r) (hP : ∀ p q, P p → P q → p <+: q → p = q) (hq : P q) (hne : q ≠ [])
  (hv : value.isObject = false)
include h hP hq hne hv

/-- A set that is to be logged at once. -/
theorem Inv.logged
    (hi : st.pendingImmediateLog =
      applyDiff r.st.pendingImmediateLog (KeyPath.construct ⟨q⟩ value) false)
    (hl : st.pendingLog = stripPaths r.st.pendingLog (KeyPath.construct ⟨q⟩ value)) :
    Inv P ⟨st, r.trace ++ [.set q value true]⟩ := by
  obtain ⟨tags, htags⟩ := exists_of_isObject (KeyPath.isObject_construct hne value)
  obtain ⟨log, hlog⟩ := exists_of_isObject h.periodic
  obtain ⟨rest, hrest, -⟩ := stripPaths_object log tags
  have hleaf : (KeyPath.construct ⟨q⟩ value).valueAt q = some value :=
    valueAt_eq_some.mpr ⟨KeyPath.lookup_construct q value, hv⟩
  have hlogs : ∀ p, valuesAt p (⟨st, r.trace ++ [.set q value true]⟩ : Run).logs =
      valuesAt p (messages r.trace) ++
        ((afterWrite p (r.st.pendingImmediateLog.valueAt p)
            (KeyPath.construct ⟨q⟩ value)).toList ++
          (if (KeyPath.construct ⟨q⟩ value).Misses p then r.st.pendingLog.valueAt p
            else none).toList) := by
    intro p
    rw [valuesAt_logs, messages_set, hi, valueAt_applyDiff, hl, hlog, htags, valueAt_stripPaths]
  refine h.set hq ?_ ?_ ⟨valuesAt q (messages r.trace), ?_, ?_⟩ (fun p hp => ?_) fun p hPp hp => ?_
  · rw [hi]
    exact isObject_applyDiff (htags ▸ rfl) _ _
  · rw [hl, hlog, htags, hrest]
    rfl
  · rw [hlogs, afterWrite_of_valueAt hleaf, if_neg (not_misses_of_valueAt hleaf)]
    rfl
  · rw [valuesAt_logs]
    exact List.sublist_append_left _ _
  · rw [hlogs, valuesAt_logs]
    refine (List.Sublist.refl _).append ((afterWrite_construct_sublist hv hp _).append ?_)
    split
    · exact List.Sublist.refl _
    · exact List.nil_sublist _
  · have hmiss := misses_construct_of_ne value hP hq hPp hp
    rw [hlogs, valuesAt_logs, afterWrite_of_misses hmiss, if_pos hmiss]

/-- A set that waits for the periodic log. -/
theorem Inv.unlogged (hi : st.pendingImmediateLog = r.st.pendingImmediateLog)
    (hl : st.pendingLog = applyDiff r.st.pendingLog (KeyPath.construct ⟨q⟩ value) false) :
    Inv P ⟨st, r.trace ++ [.set q value false]⟩ := by
  have htags := KeyPath.isObject_construct hne value
  have hleaf : (KeyPath.construct ⟨q⟩ value).valueAt q = some value :=
    valueAt_eq_some.mpr ⟨KeyPath.lookup_construct q value, hv⟩
  have hlogs : ∀ p, valuesAt p (⟨st, r.trace ++ [.set q value false]⟩ : Run).logs =
      valuesAt p (messages r.trace) ++ ((r.st.pendingImmediateLog.valueAt p).toList ++
        (afterWrite p (r.st.pendingLog.valueAt p) (KeyPath.construct ⟨q⟩ value)).toList) := by
    intro p
    rw [valuesAt_logs, messages_set, hi, hl, valueAt_applyDiff]
  refine h.set hq (hi ▸ h.immediate) ?_ ⟨valuesAt q (messages r.trace) ++
    (r.st.pendingImmediateLog.valueAt q).toList, ?_, ?_⟩ (fun p hp => ?_) fun p hPp hp => ?_
  · rw [hl]
    exact isObject_applyDiff htags _ _
  · rw [hlogs, afterWrite_of_valueAt hleaf, ← List.append_assoc]
    rfl
  · rw [valuesAt_logs, ← List.append_assoc]
    exact List.sublist_append_left _ _
  · rw [hlogs, valuesAt_logs]
    exact (List.Sublist.refl _).append
      ((List.Sublist.refl _).append (afterWrite_construct_sublist hv hp _))
  · have hmiss := misses_construct_of_ne value hP hq hPp hp
    rw [hlogs, valuesAt_logs, afterWrite_of_misses hmiss]

end Steps

/-- A commit moves the buckets to the messages and changes no list. -/
theorem Inv.commit {P : List String → Prop} {r : Run} (h : Inv P r) (instant : ℕ) (unixMs : ℚ) :
    Inv P (step r (.commit instant unixMs)) := by
  obtain ⟨due, hm, hi, hl⟩ := commitTagsCall_logs r.st instant unixMs
  have himmediate := h.immediate
  have hperiodic := h.periodic
  have hlogs : ∀ p, valuesAt p (step r (.commit instant unixMs)).logs = valuesAt p r.logs := by
    intro p
    have hnothing : (emptyObject.valueAt p).toList = [] := by
      rw [emptyObject, valueAt_empty]
      rfl
    have hempty : isEmptyObject r.st.pendingImmediateLog = true →
        (r.st.pendingImmediateLog.valueAt p).toList = [] := by
      intro hempty
      obtain ⟨m, hobj⟩ := exists_of_isObject h.immediate
      rw [hobj] at hempty ⊢
      rw [valueAt_of_isEmpty (IndexMap.isEmpty_iff.mpr (isEmptyObject_object.mp hempty))]
      rfl
    rw [valuesAt_logs, valuesAt_logs, step, messages_commit, valuesAt_append, hm, hi, hl,
      valuesAt_append]
    by_cases he : isEmptyObject r.st.pendingImmediateLog = true
    · rw [if_pos he, if_pos he, hempty he]
      cases due with
      | true => simp [hnothing]
      | false => simp
    · rw [if_neg he, if_neg he, hnothing]
      cases due with
      | true => simp [hnothing]
      | false => simp
  constructor
  · intro p value logged hmem
    rcases List.mem_append.mp hmem with hmem | hmem
    · exact h.known p value logged hmem
    · rcases List.mem_cons.mp hmem with heq | hmem
      · cases heq
      · obtain ⟨m, -, heq⟩ := List.mem_map.mp hmem
        cases heq
  · rw [step, hi]
    split
    · exact himmediate
    · rfl
  · rw [step, hl]
    split
    · rfl
    · exact hperiodic
  · intro p
    rw [hlogs, step, setsAt_commit]
    exact h.part p
  · intro p hPp
    rw [hlogs, step, setsAt_commit]
    exact h.last p hPp

/-! ## What a logged set is owed -/

/-- Where an element of an appended list is. -/
theorem split_cons {α : Type} {a b t u : List α} {x : α} (h : a ++ b = t ++ x :: u) :
    (∃ u', a = t ++ x :: u' ∧ u = u' ++ b) ∨ ∃ t', t = a ++ t' ∧ b = t' ++ x :: u := by
  rcases List.append_eq_append_iff.mp h with ⟨t', ht, hb⟩ | ⟨c, ha, hc⟩
  · exact .inr ⟨t', ht, hb⟩
  · rcases List.append_eq_cons_iff.mp hc.symm with ⟨rfl, hb⟩ | ⟨u', rfl, hu⟩
    · exact .inr ⟨[], by rw [ha, List.append_nil, List.append_nil], hb⟩
    · exact .inl ⟨u', ha, hu⟩

/-- The value of a logged set is in the immediate bucket until the next commit, unless
another takes its place, and in a message after it. -/
structure Owed (P : List String → Prop) (r : Run) : Prop where
  held : ∀ p t u v, P p → r.trace = t ++ .set p v true :: u → .commit ∉ u →
    (∀ x, .set p x true ∉ u) → r.st.pendingImmediateLog.valueAt p = some v
  answered : ∀ p t u w v, P p → r.trace = t ++ .set p v true :: (u ++ .commit :: w) →
    .commit ∉ u → (∀ x, .set p x true ∉ u) → ∃ m, .message m ∈ w ∧ m.valueAt p = some v

theorem owed_start (P : List String → Prop) (st : TagsState) : Owed P (start st) where
  held p t u v _ ht := by
    rw [start] at ht
    cases t <;> cases ht
  answered p t u w v _ ht := by
    rw [start] at ht
    cases t <;> cases ht

section Steps
variable {P : List String → Prop} {r : Run}

/-- A set keeps what is owed when it leaves the other values in the bucket and, if it is to
be logged, puts its own there. -/
theorem Owed.set (h : Owed P r) {q : List String} {value : Json} {logged : Bool} {st : TagsState}
    (hself : logged = true → st.pendingImmediateLog.valueAt q = some value)
    (hother : ∀ p, P p → (q = p → logged = false) →
      st.pendingImmediateLog.valueAt p = r.st.pendingImmediateLog.valueAt p) :
    Owed P ⟨st, r.trace ++ [.set q value logged]⟩ := by
  constructor
  · intro p t u v hp ht hcommit hsets
    rcases split_cons ht with ⟨u', htrace, rfl⟩ | ⟨t', -, hlast⟩
    · have hu' : ∀ {e}, e ∉ u' ++ [Entry.set q value logged] → e ∉ u' := fun he hmem =>
        he (List.mem_append_left _ hmem)
      rw [← h.held p t u' v hp htrace (hu' hcommit) fun x => hu' (hsets x)]
      refine hother p hp fun hqp => ?_
      by_contra hlogged
      rw [Bool.not_eq_false] at hlogged
      subst hqp hlogged
      exact hsets value (List.mem_append_right _ (List.mem_singleton.mpr rfl))
    · -- it is the set itself
      cases t' with
      | nil =>
        cases hlast
        exact hself rfl
      | cons e t' => cases t' <;> cases hlast
  · intro p t u w v hp ht hcommit hsets
    rcases split_cons ht with ⟨u', htrace, hu⟩ | ⟨t', -, hlast⟩
    · rcases split_cons hu.symm with ⟨w', rfl, rfl⟩ | ⟨t', -, hlast⟩
      · obtain ⟨m, hm, hmv⟩ := h.answered p t u w' v hp htrace hcommit hsets
        exact ⟨m, List.mem_append_left _ hm, hmv⟩
      · cases t' with
        | nil => cases hlast
        | cons e t' => cases t' <;> cases hlast
    · cases t' with
      | nil => cases u <;> cases hlast
      | cons e t' => cases t' <;> cases hlast

theorem Owed.dropped (h : Owed P r) {st : TagsState}
    (hi : st.pendingImmediateLog = r.st.pendingImmediateLog) : Owed P ⟨st, r.trace⟩ where
  held p t u v hp ht hcommit hsets := by
    rw [hi]
    exact h.held p t u v hp ht hcommit hsets
  answered := h.answered

/-- A commit pays what is owed. -/
theorem Owed.commit (h : Owed P r) (hobj : r.st.pendingImmediateLog.isObject = true)
    (instant : ℕ) (unixMs : ℚ) : Owed P (step r (.commit instant unixMs)) := by
  obtain ⟨due, hm, -, -⟩ := commitTagsCall_logs r.st instant unixMs
  have hnoset : ∀ {p v} {logs : List Json} {t : List Entry} {u},
      Entry.commit :: logs.map .message ≠ t ++ .set p v true :: u := by
    intro p v logs t u heq
    have hmem : Entry.set p v true ∈ Entry.commit :: logs.map .message :=
      heq ▸ List.mem_append_right t List.mem_cons_self
    rcases List.mem_cons.mp hmem with heq | hmem
    · cases heq
    · obtain ⟨m, -, heq⟩ := List.mem_map.mp hmem
      cases heq
  constructor
  · intro p t u v _ ht hcommit _
    rcases split_cons ht with ⟨u', -, rfl⟩ | ⟨t', -, hlast⟩
    · exact absurd (List.mem_append_right u' List.mem_cons_self) hcommit
    · exact absurd hlast hnoset
  · intro p t u w v hp ht hcommit hsets
    rcases split_cons ht with ⟨u', htrace, hu⟩ | ⟨t', -, hlast⟩
    · rcases split_cons hu.symm with ⟨w', rfl, rfl⟩ | ⟨t', rfl, hlast⟩
      · obtain ⟨m, hm, hmv⟩ := h.answered p t u w' v hp htrace hcommit hsets
        exact ⟨m, List.mem_append_left _ hm, hmv⟩
      · cases t' with
        | cons e t' =>
          obtain rfl : Entry.commit = e := (List.cons.inj hlast).1
          exact absurd (List.mem_append_right u' List.mem_cons_self) hcommit
        | nil =>
          -- the bucket had the value, so it was not empty
          cases hlast
          rw [List.append_nil] at hcommit hsets
          have hheld := h.held p t u' v hp htrace hcommit hsets
          obtain ⟨m, hbucket⟩ := exists_of_isObject hobj
          have hfull : isEmptyObject r.st.pendingImmediateLog = false := by
            by_contra hempty
            rw [Bool.not_eq_false, hbucket] at hempty
            rw [hbucket, valueAt_of_isEmpty
              (IndexMap.isEmpty_iff.mpr (isEmptyObject_object.mp hempty))] at hheld
            cases hheld
          refine ⟨r.st.pendingImmediateLog, List.mem_map_of_mem ?_, hheld⟩
          rw [hm, if_neg (by rw [hfull]; exact Bool.false_ne_true)]
          exact List.mem_append_left _ List.mem_cons_self
    · exact absurd hlast hnoset

end Steps

/-! ## Complete logs -/

/-- The paths that the calls set. -/
def Paths (calls : List Call) (p : List String) : Prop :=
  ∃ c ∈ calls, ∃ value, c.write = some (p, value)

theorem Separate.paths {calls : List Call} (h : Separate calls) :
    ∀ p q, Paths calls p → Paths calls q → p <+: q → p = q := by
  rintro p q ⟨c, hc, v, hv⟩ ⟨c', hc', v', hv'⟩ hpq
  exact h.prefixFree c hc c' hc' _ _ hv hv' hpq

/-- **One call** keeps the lists and what is owed. -/
theorem step_inv {calls : List Call} (h : Separate calls) {r : Run} (hinv : Inv (Paths calls) r)
    (howed : Owed (Paths calls) r) {c : Call} (hc : c ∈ calls) :
    Inv (Paths calls) (step r c) ∧ Owed (Paths calls) (step r c) := by
  cases c with
  | commit instant unixMs =>
    exact ⟨hinv.commit instant unixMs, howed.commit hinv.immediate instant unixMs⟩
  | set appKey key value opts =>
    have hq : Paths calls (KeyPath.mkScoped appKey [key]).path := ⟨_, hc, value, rfl⟩
    have hne := KeyPath.mkScoped_path_ne_nil appKey key
    have hv : value.isObject = false := h.leaf _ hc _ rfl
    have hleaf : ((KeyPath.mkScoped appKey [key]).construct value).valueAt
        (KeyPath.mkScoped appKey [key]).path = some value :=
      valueAt_eq_some.mpr ⟨KeyPath.lookup_construct _ value, hv⟩
    rw [step]
    rcases setTagCall_logs r.st appKey key value opts with
      ⟨hentry, hi, hl⟩ | ⟨hentry, hi, hl⟩ | ⟨hentry, hi, hl⟩
    · rw [hentry, Option.toList_none, List.append_nil]
      exact ⟨hinv.dropped hi hl, howed.dropped hi⟩
    · rw [hentry]
      refine ⟨hinv.logged h.paths hq hne hv hi hl, howed.set (fun _ => ?_) fun p hp hqp => ?_⟩
      · rw [hi, valueAt_applyDiff, afterWrite_of_valueAt hleaf]
      · have hmiss := misses_construct_of_ne value h.paths hq hp fun heq => by
          cases hqp heq
        rw [hi]
        exact (valueAt_applyDiff _ _ p).trans (afterWrite_of_misses hmiss _)
    · rw [hentry]
      refine ⟨hinv.unlogged h.paths hq hne hv hi hl, howed.set (fun hl => ?_) fun p _ _ => ?_⟩
      · cases hl
      · rw [hi]

/-- **Logs are complete.**  After every run, at each path set, the messages and then the
buckets end in the value set last.  What is set to be logged is in a message after the next
commit, unless another such set of the path came first.  And no set is logged twice: at each
path the messages have values of different sets, in order. -/
theorem logs_complete (st : TagsState) (calls : List Call) (h : Separate calls) :
    let r := exec step (start st) calls
    (∀ p value logged, .set p value logged ∈ r.trace →
        lastValue r.logs p = (setsAt p r.trace).getLast?) ∧
      (∀ t u w p value, r.trace = t ++ .set p value true :: (u ++ .commit :: w) → .commit ∉ u →
        (∀ x, .set p x true ∉ u) → ∃ m, .message m ∈ w ∧ m.valueAt p = some value) ∧
      ∀ p, (valuesAt p (messages r.trace)).Sublist (setsAt p r.trace) := by
  intro r
  obtain ⟨hinv, howed⟩ : Inv (Paths calls) r ∧ Owed (Paths calls) r :=
    exec_invariant step (I := fun r => Inv (Paths calls) r ∧ Owed (Paths calls) r)
      ⟨inv_start (Paths calls) st, owed_start (Paths calls) st⟩
      fun s hs c hc => step_inv h hs.1 hs.2 hc
  refine ⟨fun p value logged hmem => ?_, fun t u w p value ht hcommit hsets => ?_, fun p => ?_⟩
  · rw [lastValue_eq_getLast?]
    exact hinv.last p (hinv.known p value logged hmem)
  · have hmem : .set p value true ∈ r.trace := ht ▸ List.mem_append_right t List.mem_cons_self
    exact howed.answered p t u w value (hinv.known p value true hmem) ht hcommit hsets
  · refine List.Sublist.trans ?_ (hinv.part p)
    rw [valuesAt_logs]
    exact List.sublist_append_left _ _

/-- The calls of an alarm that is raised, logged at once, and cleared before the commit. -/
def alarmCalls : List Call :=
  [.set "pump" "alarm" (.bool true) ⟨true, false, true⟩,
    .set "pump" "alarm" (.bool false) .default, .commit 0 0]

theorem separate_alarmCalls : Separate alarmCalls where
  leaf := by
    intro c hc w hw
    simp only [alarmCalls, List.mem_cons, List.not_mem_nil, or_false] at hc
    rcases hc with rfl | rfl | rfl <;> cases hw <;> rfl
  prefixFree := by
    intro c hc c' hc' w w' hw hw' _
    simp only [alarmCalls, List.mem_cons, List.not_mem_nil, or_false] at hc hc'
    rcases hc with rfl | rfl | rfl <;> cases hw <;>
      rcases hc' with rfl | rfl | rfl <;> cases hw' <;> rfl

theorem logs_complete_alarm :
    let r := exec step (start .default) alarmCalls
    (∀ p value logged, .set p value logged ∈ r.trace →
        lastValue r.logs p = (setsAt p r.trace).getLast?) ∧
      (∀ t u w p value, r.trace = t ++ .set p value true :: (u ++ .commit :: w) → .commit ∉ u →
        (∀ x, .set p x true ∉ u) → ∃ m, .message m ∈ w ∧ m.valueAt p = some value) ∧
      ∀ p, (valuesAt p (messages r.trace)).Sublist (setsAt p r.trace) :=
  logs_complete .default alarmCalls separate_alarmCalls

/-- Between two messages with a path, the path was set. -/
def SetBetween (trace : List Entry) : Prop :=
  ∀ t u w m m' p, trace = t ++ .message m :: (u ++ .message m' :: w) → m.valueAt p ≠ none →
    m'.valueAt p ≠ none → ∃ value logged, .set p value logged ∈ u

/-- The commit logs the alarm and, in another message, that it is over. -/
theorem alarm_in_two_messages :
    Separate alarmCalls ∧ ¬ SetBetween (exec step (start .default) alarmCalls).trace := by
  refine ⟨separate_alarmCalls, fun h => ?_⟩
  have htrace : (exec step (start .default) alarmCalls).trace =
      [.set ["pump", "alarm"] (.bool true) true, .set ["pump", "alarm"] (.bool false) false,
        .commit] ++ .message (KeyPath.construct ⟨["pump", "alarm"]⟩ (.bool true)) ::
        ([] ++ .message (KeyPath.construct ⟨["pump", "alarm"]⟩ (.bool false)) :: []) := by
    rfl
  obtain ⟨value, logged, hmem⟩ := h _ _ _ _ _ ["pump", "alarm"] htrace
    (by rw [valueAt_eq_some.mpr ⟨KeyPath.lookup_construct _ _, rfl⟩]; exact Option.some_ne_none _)
    (by rw [valueAt_eq_some.mpr ⟨KeyPath.lookup_construct _ _, rfl⟩]; exact Option.some_ne_none _)
  cases hmem

end TagLogs
end Doover
