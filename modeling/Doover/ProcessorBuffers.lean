import Doover.JsonEquality
import Doover.ProcessorTags
import Doover.StepRuns

/-! # What a processor's buffers say

The tags of an invocation are three nested maps: the snapshot, what moved in it since the
last commit, and what was set.  Whatever is set, in whatever mode, and however often it is
committed, the three agree (`Described`): what moved is in the snapshot and was set, what was
set is what the snapshot has, and everything else is as it was at the last commit.

So the three ways to log a commit are one log, more or less of it: what `OnlyChanged` logs is
part of what `OnlySet` logs, and that is what `Always` logs of the same tags
(`buffers_describe_snapshot`).
-/

namespace Doover
open Json StepRuns

/-- A call on the tags of an invocation. -/
inductive ProcessorTagsCall where
  | setTagWith (key : String) (value : Json) (opts : SetProcessorTagOptions)
  | setLogMode (mode : LogMode)
  /-- A commit whose writes succeed. -/
  | commitTagsWith (recordLog : Bool)

/-- The tags of an invocation, and what it takes to tell what its commits are about. -/
structure TagsInvocation where
  tags : ProcessorTags
  /-- The snapshot at construction, or at the last commit that did not return early. -/
  base : TagBuffer
  /-- Since the last commit that published something, a set of another app's tag changed its
  value or asked for its log. -/
  asked : Bool

namespace ProcessorTags
variable (st : ProcessorTags)

/-- What a commit publishes when its writes succeed. -/
def commitWrites (recordLog : Bool) : List TagChannelWrite :=
  (st.commitTagsWith recordLog ⟨.ok (), .ok ()⟩).2.1

/-- A set of another app's tag that changes its value or asks for its log, as every set does
in the mode `OnlySet`. -/
def asksExternally (key : String) (value : Json) (opts : SetProcessorTagOptions) : Bool :=
  let appKey := opts.appKey.getD st.appKey
  decide (appKey ≠ st.appKey) &&
    (st.moves appKey key value || opts.log || decide (st.logMode = .onlySet))

end ProcessorTags

namespace TagsInvocation

def start (appKey : String) (seed : Json) (recordTagUpdate : Bool) : TagsInvocation :=
  let tags := ProcessorTags.new appKey seed recordTagUpdate
  ⟨tags, tags.tagValues, false⟩

def step (inv : TagsInvocation) : ProcessorTagsCall → TagsInvocation
  | .setTagWith key value opts =>
    { inv with
      tags := inv.tags.setTagWith key value opts
      asked := inv.asked || inv.tags.asksExternally key value opts }
  | .setLogMode mode => { inv with tags := inv.tags.setLogMode mode }
  | .commitTagsWith recordLog =>
    { tags := (inv.tags.commitTagsWith recordLog ⟨.ok (), .ok ()⟩).1
      base := if inv.tags.updateTags then inv.tags.tagValues else inv.base
      asked := inv.asked && (inv.tags.commitWrites recordLog).isEmpty }

end TagsInvocation

/-! ## Nested buffers -/

theorem get?_insertNested_of_ne (buffer : TagBuffer) {appKey a : String} (key : String)
    (value : Json) (h : a ≠ appKey) :
    (insertNested buffer appKey key value).get? a = buffer.get? a := by
  rw [insertNested]
  split <;> exact IndexMap.get?_insert_of_ne _ h

/-- The entry that a set leaves is an object with the key in it. -/
theorem get?_insertNested_self (buffer : TagBuffer) (appKey key : String) (value : Json) :
    ∃ m : IndexMap String Json, (insertNested buffer appKey key value).get? appKey =
        some (.object m) ∧ m.get? key = some value := by
  rw [insertNested]
  split
  · exact ⟨_, IndexMap.get?_insert_self .., IndexMap.get?_insert_self ..⟩
  · exact ⟨_, IndexMap.get?_insert_self ..,
      (get?_ofList_singleton key key value).trans (if_pos rfl)⟩

namespace ProcessorTags
variable {st : ProcessorTags}

theorem setTagWith_touched (key : String) (value : Json) (opts : SetProcessorTagOptions) :
    (st.setTagWith key value opts).touched =
      insertNested st.touched (opts.appKey.getD st.appKey) key value := by
  simp only [setTagWith]
  split
  · rfl
  · split <;> rfl

/-- A commit that does not return early takes the buffers, whatever it publishes. -/
theorem commitTagsWith_fst (recordLog : Bool) (answers : CommitAnswers) :
    (st.commitTagsWith recordLog answers).1 = if st.updateTags then st.reset else st := by
  rw [commitTagsWith]
  cases st.updateTags with
  | false => rfl
  | true =>
    cases st.aggregateUpdate with
    | none => rfl
    | some data => cases answers.aggregate <;> rfl

end ProcessorTags

/-! ## The invariant -/

/-- **The buffers describe the snapshot**: `dirty` what moved in it since it was `base`,
`touched` what was set. -/
structure Described (dirty touched values base : TagBuffer) : Prop where
  /-- What moved is in the snapshot, and was set. -/
  moved : ∀ a k v, dirty.scoped a k = some v →
    values.scoped a k = some v ∧ ∃ w, touched.scoped a k = some w ∧ (v == w) = true
  /-- What was set is what the snapshot has; a missing tag is null. -/
  set : ∀ a k w, touched.scoped a k = some w → ((values.scoped a k).getD .null == w) = true
  /-- A tag that did not move is as it was. -/
  clean : ∀ a k, dirty.scoped a k = none → values.scoped a k = base.scoped a k
  /-- And so is an app none of whose tags moved. -/
  cleanApp : ∀ a, dirty.get? a = none → values.get? a = base.get? a
  /-- The apps in `dirty` have a tag there. -/
  nested : ∀ a v, dirty.get? a = some v →
    ∃ m : IndexMap String Json, v = .object m ∧ ∃ k x, m.get? k = some x

namespace Described
variable {dirty touched values base : TagBuffer}

theorem empty (base : TagBuffer) : Described .empty .empty base base where
  moved a k v h := by cases h
  set a k w h := by cases h
  clean _ _ _ := rfl
  cleanApp _ _ := rfl
  nested a v h := by cases h

/-- A value moves. -/
theorem move (h : Described dirty touched values base) (appKey key : String) (value : Json) :
    Described (insertNested dirty appKey key value) (insertNested touched appKey key value)
      (insertNested values appKey key value) base where
  moved a k v hv := by
    rw [scoped_insertNested] at hv
    rw [scoped_insertNested, scoped_insertNested]
    by_cases hak : a = appKey ∧ k = key
    · rw [if_pos hak] at hv ⊢
      rw [if_pos hak]
      obtain rfl := Option.some.inj hv
      exact ⟨rfl, value, rfl, beq_refl value⟩
    · rw [if_neg hak] at hv ⊢
      rw [if_neg hak]
      exact h.moved a k v hv
  set a k w hw := by
    rw [scoped_insertNested] at hw
    rw [scoped_insertNested]
    by_cases hak : a = appKey ∧ k = key
    · rw [if_pos hak] at hw ⊢
      obtain rfl := Option.some.inj hw
      exact beq_refl value
    · rw [if_neg hak] at hw ⊢
      exact h.set a k w hw
  clean a k hk := by
    rw [scoped_insertNested] at hk
    rw [scoped_insertNested]
    by_cases hak : a = appKey ∧ k = key
    · rw [if_pos hak] at hk
      cases hk
    · rw [if_neg hak] at hk ⊢
      exact h.clean a k hk
  cleanApp a ha := by
    by_cases happ : a = appKey
    · obtain ⟨m, hm, -⟩ := get?_insertNested_self dirty appKey key value
      rw [happ, hm] at ha
      cases ha
    · rw [get?_insertNested_of_ne _ _ _ happ] at ha ⊢
      exact h.cleanApp a ha
  nested a v hv := by
    by_cases happ : a = appKey
    · obtain ⟨m, hm, hkey⟩ := get?_insertNested_self dirty appKey key value
      rw [happ, hm] at hv
      exact ⟨m, (Option.some.inj hv).symm, key, value, hkey⟩
    · rw [get?_insertNested_of_ne _ _ _ happ] at hv
      exact h.nested a v hv

/-- A tag is set to the value it has. -/
theorem reassert (h : Described dirty touched values base) {appKey key : String} {value : Json}
    (hvalue : ((values.scoped appKey key).getD .null == value) = true) :
    Described dirty (insertNested touched appKey key value) values base where
  moved a k v hv := by
    obtain ⟨hvalues, w, hw, heq⟩ := h.moved a k v hv
    rw [scoped_insertNested]
    refine ⟨hvalues, ?_⟩
    by_cases hak : a = appKey ∧ k = key
    · obtain ⟨rfl, rfl⟩ := hak
      rw [hvalues] at hvalue
      exact ⟨value, if_pos ⟨rfl, rfl⟩, hvalue⟩
    · exact ⟨w, (if_neg hak).trans hw, heq⟩
  set a k w hw := by
    rw [scoped_insertNested] at hw
    by_cases hak : a = appKey ∧ k = key
    · obtain ⟨rfl, rfl⟩ := hak
      rw [if_pos ⟨rfl, rfl⟩] at hw
      exact Option.some.inj hw ▸ hvalue
    · rw [if_neg hak] at hw
      exact h.set a k w hw
  clean := h.clean
  cleanApp := h.cleanApp
  nested := h.nested

end Described

namespace TagsInvocation

/-- The buffers of an invocation describe its snapshot. -/
def IsDescribed (inv : TagsInvocation) : Prop :=
  Described inv.tags.dirty inv.tags.touched inv.tags.tagValues inv.base

theorem isDescribed_start (appKey : String) (seed : Json) (recordTagUpdate : Bool) :
    (start appKey seed recordTagUpdate).IsDescribed := Described.empty _

theorem isDescribed_step {inv : TagsInvocation} (h : inv.IsDescribed) (c : ProcessorTagsCall) :
    (inv.step c).IsDescribed := by
  cases c with
  | setTagWith key value opts =>
    have htouched := inv.tags.setTagWith_touched key value opts
    cases hmoves : inv.tags.moves (opts.appKey.getD inv.tags.appKey) key value with
    | true =>
      obtain ⟨hvalues, hdirty, -, -⟩ := ProcessorTags.setTagWith_of_moves rfl hmoves
      rw [IsDescribed, step, hvalues, hdirty, htouched]
      exact h.move _ key value
    | false =>
      obtain ⟨hvalues, hdirty, -, -⟩ := ProcessorTags.setTagWith_of_not_moves hmoves
      rw [IsDescribed, step, hvalues, hdirty, htouched]
      refine h.reassert ?_
      rw [ProcessorTags.moves, Bool.not_eq_false'] at hmoves
      exact hmoves
  | setLogMode mode => exact h
  | commitTagsWith recordLog =>
    rw [IsDescribed, step, ProcessorTags.commitTagsWith_fst]
    split
    · exact Described.empty _
    · exact h

theorem isDescribed_exec (appKey : String) (seed : Json) (recordTagUpdate : Bool)
    (calls : List ProcessorTagsCall) :
    (exec step (start appKey seed recordTagUpdate) calls).IsDescribed :=
  exec_invariant step (isDescribed_start appKey seed recordTagUpdate)
    fun _ h c _ => isDescribed_step h c

end TagsInvocation

/-! ## Log payloads -/

/-- A payload is part of another: its apps are there, each with all of its tags. -/
def SubPayload (p q : Option Json) : Prop :=
  ∀ o, p = some o → ∃ o', q = some o' ∧ ∀ a m, o.get? a = some m →
    ∃ m', o'.get? a = some m' ∧ ∀ k v, m.get? k = some v →
      ∃ w, m'.get? k = some w ∧ (v == w) = true

/-- The entry of a payload for a tag. -/
def payloadEntry (p : Option Json) (a k : String) : Option Json :=
  (p.bind fun o => o.get? a).bind fun m => m.get? k

/-- Every entry of a payload is what another has; a missing entry is null. -/
def EntriesAgree (p q : Option Json) : Prop :=
  ∀ a k v, payloadEntry p a k = some v → ((payloadEntry q a k).getD .null == v) = true

theorem get?_of_isFalsy {j : Json} (h : isFalsy j = true) (k : String) : j.get? k = none := by
  by_contra hk
  obtain ⟨v, hv⟩ := Option.ne_none_iff_exists'.mp hk
  rw [isFalsy_of_get? hv] at h
  cases h

/-- A payload has the entries of its buffer that are in its scope. -/
theorem payloadEntry_scopePayload (source : TagBuffer) (appKey a k : String) (external : Bool) :
    payloadEntry (scopePayload source appKey external) a k =
      if external = true ∨ a = appKey then source.scoped a k else none := by
  cases external with
  | true =>
    rw [if_pos (.inl rfl), scopePayload, if_pos rfl, TagBuffer.scoped]
    split
    · rename_i hempty
      rw [IndexMap.isEmpty_iff.mp hempty a]
      rfl
    · rfl
  | false =>
    rw [scopePayload, if_neg Bool.false_ne_true]
    by_cases ha : a = appKey
    · subst ha
      rw [if_pos (.inr rfl), TagBuffer.scoped]
      cases hown : source.get? a with
      | none => rfl
      | some own =>
        by_cases hfalsy : isFalsy own = true
        · rw [Option.bind_some, get?_of_isFalsy hfalsy]
          simp only [hfalsy, if_true]
          rfl
        · simp only [hfalsy, Bool.false_eq_true, if_false, payloadEntry, Option.bind_some,
            get?_ofList_singleton, if_true]
    · rw [if_neg (by simp [ha])]
      cases source.get? appKey with
      | none => rfl
      | some own =>
        by_cases hfalsy : isFalsy own = true
        · simp only [hfalsy, if_true]
          rfl
        · simp only [hfalsy, payloadEntry, Option.bind_some, get?_ofList_singleton, ha, if_false,
            Bool.false_eq_true]
          rfl

namespace Described
variable {dirty touched values base : TagBuffer}

/-- What was set of an app of which something moved. -/
theorem exists_touched (h : Described dirty touched values base) {a : String} {m : Json}
    (hm : dirty.get? a = some m) :
    ∃ m', touched.get? a = some m' ∧ isFalsy m' = false ∧ ∀ k v, m.get? k = some v →
      ∃ w, m'.get? k = some w ∧ (v == w) = true := by
  have hset : ∀ k v, m.get? k = some v → ∃ w, touched.scoped a k = some w ∧ (v == w) = true := by
    intro k v hv
    refine (h.moved a k v ?_).2
    rw [TagBuffer.scoped, hm, Option.bind_some, hv]
  obtain ⟨o, rfl, k, x, hk⟩ := h.nested a m hm
  obtain ⟨w, hw, -⟩ := hset k x hk
  obtain ⟨m', hm', hkey⟩ := Option.bind_eq_some_iff.mp hw
  refine ⟨m', hm', isFalsy_of_get? hkey, fun k v hv => ?_⟩
  obtain ⟨w, hw, heq⟩ := hset k v hv
  rw [TagBuffer.scoped, hm', Option.bind_some] at hw
  exact ⟨w, hw, heq⟩

/-- **What is logged as changed is logged as set.** -/
theorem subPayload (h : Described dirty touched values base) (appKey : String) (external : Bool) :
    SubPayload (scopePayload dirty appKey external) (scopePayload touched appKey external) := by
  intro o ho
  cases external with
  | true =>
    rw [scopePayload, if_pos rfl] at ho ⊢
    split at ho
    · cases ho
    · rename_i hdirty
      cases ho
      have htouched : touched.isEmpty = false := by
        obtain ⟨a, m, hm⟩ := IndexMap.isEmpty_eq_false_iff.mp ((Bool.not_eq_true _).mp hdirty)
        obtain ⟨m', hm', -⟩ := h.exists_touched hm
        exact IndexMap.isEmpty_eq_false_iff.mpr ⟨a, m', hm'⟩
      rw [htouched, if_neg Bool.false_ne_true]
      refine ⟨_, rfl, fun a m hm => ?_⟩
      obtain ⟨m', hm', -, hentries⟩ := h.exists_touched hm
      exact ⟨m', hm', hentries⟩
  | false =>
    obtain ⟨m, hm, -, rfl⟩ := scopePayload_own_eq_some_iff.mp ho
    obtain ⟨m', hm', hfalsy, hentries⟩ := h.exists_touched hm
    refine ⟨_, scopePayload_own_eq_some_iff.mpr ⟨m', hm', hfalsy, rfl⟩, fun a n hn => ?_⟩
    rw [get?_ofList_singleton] at hn ⊢
    split at hn
    · cases hn
      exact ⟨m', if_pos ‹_›, hentries⟩
    · cases hn

/-- **What is logged as set is what is logged always.** -/
theorem entriesAgree (h : Described dirty touched values base) (appKey : String)
    (external : Bool) :
    EntriesAgree (scopePayload touched appKey external) (scopePayload values appKey external) := by
  intro a k v hv
  rw [payloadEntry_scopePayload] at hv ⊢
  split at hv
  · rename_i hscope
    rw [if_pos hscope]
    exact h.set a k v hv
  · cases hv

end Described

namespace ProcessorTags
variable (st : ProcessorTags)

/-- The log payload of a commit in this mode and scope. -/
def payloadIn (mode : LogMode) (external recordLog : Bool) : Option Json :=
  { st with logMode := mode, updateExternalTags := external }.logPayload recordLog

variable {st}

/-- The buffer that is logged in a mode. -/
def logged (st : ProcessorTags) : TagBuffer :=
  match st.logMode with
  | .always => st.tagValues
  | .never => .empty
  | .onlyChanged => st.dirty
  | .onlySet => st.touched

theorem logPayload_eq (recordLog : Bool) :
    st.logPayload recordLog =
      if st.recordTagUpdate || recordLog then
        scopePayload st.logged st.appKey st.updateExternalTags
      else none := by
  rw [logPayload, logged]
  refine if_congr Iff.rfl ?_ rfl
  cases st.logMode with
  | always => exact update_eq_scopePayload
  | never => cases st.updateExternalTags <;> rfl
  | onlyChanged => rfl
  | onlySet => rfl

end ProcessorTags

namespace TagsInvocation

/-- **The buffers of a processor describe its snapshot.**  After any calls, from any seed,
they do; and of the log payloads that a commit then has, in either scope, the one of
`OnlyChanged` is part of the one of `OnlySet`, whose entries are those of `Always`. -/
theorem buffers_describe_snapshot (appKey : String) (seed : Json) (recordTagUpdate : Bool)
    (calls : List ProcessorTagsCall) :
    (exec step (start appKey seed recordTagUpdate) calls).IsDescribed ∧
      ∀ external recordLog,
        SubPayload
            ((exec step (start appKey seed recordTagUpdate) calls).tags.payloadIn .onlyChanged
              external recordLog)
            ((exec step (start appKey seed recordTagUpdate) calls).tags.payloadIn .onlySet
              external recordLog) ∧
          EntriesAgree
            ((exec step (start appKey seed recordTagUpdate) calls).tags.payloadIn .onlySet
              external recordLog)
            ((exec step (start appKey seed recordTagUpdate) calls).tags.payloadIn .always
              external recordLog) := by
  have h := isDescribed_exec appKey seed recordTagUpdate calls
  refine ⟨h, fun external recordLog => ?_⟩
  generalize exec step (start appKey seed recordTagUpdate) calls = inv at h
  rw [ProcessorTags.payloadIn, ProcessorTags.payloadIn, ProcessorTags.payloadIn,
    ProcessorTags.logPayload_eq, ProcessorTags.logPayload_eq, ProcessorTags.logPayload_eq]
  cases hrecord : inv.tags.recordTagUpdate || recordLog with
  | true => exact ⟨h.subPayload _ external, h.entriesAgree _ external⟩
  | false =>
    refine ⟨fun o ho => ?_, fun a k v hv => ?_⟩
    · cases ho
    · cases hv

end TagsInvocation

end Doover
