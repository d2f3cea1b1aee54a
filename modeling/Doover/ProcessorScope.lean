import Doover.ProcessorBuffers

/-! # Which apps a commit publishes

A processor may set the tags of other apps, and a commit is widened to them when it did.
The flag that widens it is set by such a set and never taken back, as the buffers are: once
another app's tag was set, every later commit is about all apps of the snapshot, also those
that nobody set again.

A commit publishes another app's key only after a set that asked for it, exactly as long as
no commit with something to publish finds the flag left over from before
(`external_after_request_iff`).
-/

namespace Doover
open Json StepRuns

def TagChannelWrite.data : TagChannelWrite → Json
  | .aggregate data _ => data
  | .message data _ => data

/-- The buffer has a key other than the app's own. -/
def TagBuffer.HasForeign (buffer : TagBuffer) (appKey : String) : Prop :=
  ∃ a, a ≠ appKey ∧ buffer.get? a ≠ none

namespace ProcessorTags
variable (st : ProcessorTags)

/-- The commit publishes a key other than the app's own. -/
def PublishesForeign (recordLog : Bool) : Prop :=
  ∃ write ∈ st.commitWrites recordLog, ∃ a, a ≠ st.appKey ∧ write.data.get? a ≠ none

end ProcessorTags

/-- A commit publishes other apps' keys by a flag left over: no set of theirs asked for it
since the last commit that published, and there are other apps in what it pushes or logs. -/
structure TagsInvocation.LeaksExternal (inv : TagsInvocation) (recordLog : Bool) : Prop where
  updateTags : inv.tags.updateTags = true
  external : inv.tags.updateExternalTags = true
  notAsked : inv.asked = false
  foreign :
    ((inv.tags.dirty.isEmpty = false ∨
        (inv.tags.recordTagUpdate || recordLog) = true ∧ inv.tags.logMode = .always) ∧
      inv.tags.tagValues.HasForeign inv.tags.appKey) ∨
    ((inv.tags.recordTagUpdate || recordLog) = true ∧ inv.tags.logMode = .onlySet ∧
      inv.tags.touched.HasForeign inv.tags.appKey)

/-! ## What a commit publishes -/

theorem not_hasForeign_empty (appKey : String) :
    ¬ TagBuffer.HasForeign (.empty : TagBuffer) appKey := by
  rintro ⟨a, -, ha⟩
  exact ha rfl

theorem hasForeign_insertNested_own {buffer : TagBuffer} {appKey key : String} {value : Json} :
    (insertNested buffer appKey key value).HasForeign appKey ↔ buffer.HasForeign appKey := by
  refine exists_congr fun a => and_congr_right fun ha => ?_
  rw [get?_insertNested_of_ne _ _ _ ha]

/-- A payload has other apps' keys when it is widened to them and the buffer has. -/
theorem foreign_scopePayload_iff {source : TagBuffer} {appKey : String} {external : Bool} :
    (∃ o, scopePayload source appKey external = some o ∧ ∃ a, a ≠ appKey ∧ o.get? a ≠ none) ↔
      external = true ∧ source.HasForeign appKey := by
  cases external with
  | true =>
    rw [scopePayload, if_pos rfl, and_iff_right rfl]
    constructor
    · rintro ⟨o, ho, hforeign⟩
      split at ho
      · cases ho
      · cases ho
        exact hforeign
    · rintro ⟨a, ha, hget⟩
      have hempty : ¬ source.isEmpty = true := fun h => hget (IndexMap.isEmpty_iff.mp h a)
      exact ⟨.object source, if_neg hempty, a, ha, hget⟩
  | false =>
    refine iff_of_false ?_ fun h => Bool.false_ne_true h.1
    rintro ⟨o, ho, a, ha, hget⟩
    obtain ⟨own, -, -, rfl⟩ := scopePayload_own_eq_some_iff.mp ho
    exact hget ((get?_ofList_singleton ..).trans (if_neg ha))

namespace ProcessorTags
variable {st : ProcessorTags}

theorem commitWrites_eq (recordLog : Bool) :
    st.commitWrites recordLog =
      if st.updateTags then
        (st.aggregateUpdate.map fun data => .aggregate data true).toList ++
          ((st.logPayload recordLog).map fun data => .message data true).toList
      else [] := by
  rw [commitWrites, commitTagsWith]
  cases st.updateTags with
  | false => rfl
  | true =>
    cases st.aggregateUpdate <;> cases st.logPayload recordLog <;> rfl

theorem aggregateUpdate_eq_some_iff {o : Json} :
    st.aggregateUpdate = some o ↔ st.dirty.isEmpty = false ∧
      scopePayload st.tagValues st.appKey st.updateExternalTags = some o := by
  rw [aggregateUpdate, ← update_eq_scopePayload]
  cases st.dirty.isEmpty with
  | true => exact iff_of_false (fun h => by cases h) fun h => by cases h.1
  | false => exact (and_iff_right rfl).symm

theorem logPayload_eq_some_iff {recordLog : Bool} {o : Json} :
    st.logPayload recordLog = some o ↔ (st.recordTagUpdate || recordLog) = true ∧
      scopePayload st.logged st.appKey st.updateExternalTags = some o := by
  rw [logPayload_eq]
  split
  · rename_i hlog
    exact (and_iff_right hlog).symm
  · rename_i hlog
    exact iff_of_false (fun h => by cases h) fun h => hlog h.1

/-- **What a commit publishes of other apps.**  The snapshot when something moved, and the
buffer that it logs. -/
theorem publishesForeign_iff {recordLog : Bool} :
    st.PublishesForeign recordLog ↔
      st.updateTags = true ∧ st.updateExternalTags = true ∧
        (st.dirty.isEmpty = false ∧ st.tagValues.HasForeign st.appKey ∨
          (st.recordTagUpdate || recordLog) = true ∧ st.logged.HasForeign st.appKey) := by
  rw [PublishesForeign, commitWrites_eq]
  constructor
  · rintro ⟨write, hwrite, hforeign⟩
    split at hwrite
    · rename_i hupdate
      refine ⟨hupdate, ?_⟩
      rcases List.mem_append.mp hwrite with h | h
      · obtain ⟨o, ho, rfl⟩ := Option.map_eq_some_iff.mp (Option.mem_toList.mp h)
        obtain ⟨hdirty, hpayload⟩ := aggregateUpdate_eq_some_iff.mp ho
        obtain ⟨hexternal, hvalues⟩ := foreign_scopePayload_iff.mp ⟨o, hpayload, hforeign⟩
        exact ⟨hexternal, .inl ⟨hdirty, hvalues⟩⟩
      · obtain ⟨o, ho, rfl⟩ := Option.map_eq_some_iff.mp (Option.mem_toList.mp h)
        obtain ⟨hlog, hpayload⟩ := logPayload_eq_some_iff.mp ho
        obtain ⟨hexternal, hlogged⟩ := foreign_scopePayload_iff.mp ⟨o, hpayload, hforeign⟩
        exact ⟨hexternal, .inr ⟨hlog, hlogged⟩⟩
    · cases hwrite
  · rintro ⟨hupdate, hexternal, ⟨hdirty, hvalues⟩ | ⟨hlog, hlogged⟩⟩
    · obtain ⟨o, hpayload, hforeign⟩ := foreign_scopePayload_iff.mpr ⟨hexternal, hvalues⟩
      refine ⟨.aggregate o true, ?_, hforeign⟩
      rw [if_pos hupdate, aggregateUpdate_eq_some_iff.mpr ⟨hdirty, hpayload⟩]
      exact List.mem_append_left _ List.mem_cons_self
    · obtain ⟨o, hpayload, hforeign⟩ := foreign_scopePayload_iff.mpr ⟨hexternal, hlogged⟩
      refine ⟨.message o true, ?_, hforeign⟩
      rw [if_pos hupdate, logPayload_eq_some_iff.mpr ⟨hlog, hpayload⟩]
      exact List.mem_append_right _ List.mem_cons_self

end ProcessorTags

namespace TagsInvocation
variable {inv : TagsInvocation}

/-! ## What moved of other apps was asked for -/

/-- Other apps are in `dirty` only when a set of theirs asked for it. -/
def MovedAsked (inv : TagsInvocation) : Prop :=
  inv.asked = false → ¬ inv.tags.dirty.HasForeign inv.tags.appKey

theorem movedAsked_start (appKey : String) (seed : Json) (recordTagUpdate : Bool) :
    (start appKey seed recordTagUpdate).MovedAsked := fun _ => not_hasForeign_empty appKey

theorem movedAsked_step (h : inv.MovedAsked) (c : ProcessorTagsCall) :
    (inv.step c).MovedAsked := by
  cases c with
  | setTagWith key value opts =>
    intro hasked
    obtain ⟨hbefore, hset⟩ := Bool.or_eq_false_iff.mp hasked
    rw [step, ProcessorTags.setTagWith_appKey]
    cases hmoves : inv.tags.moves (opts.appKey.getD inv.tags.appKey) key value with
    | true =>
      obtain ⟨-, hdirty, -, -⟩ := ProcessorTags.setTagWith_of_moves rfl hmoves
      have hown : opts.appKey.getD inv.tags.appKey = inv.tags.appKey := by
        by_contra hne
        rw [ProcessorTags.asksExternally, decide_eq_true hne, hmoves] at hset
        cases hset
      rw [hdirty, hown, hasForeign_insertNested_own]
      exact h hbefore
    | false =>
      obtain ⟨-, hdirty, -, -⟩ := ProcessorTags.setTagWith_of_not_moves hmoves
      rw [hdirty]
      exact h hbefore
  | setLogMode mode => exact h
  | commitTagsWith recordLog =>
    intro hasked
    rw [step, ProcessorTags.commitTagsWith_fst]
    cases hupdate : inv.tags.updateTags with
    | true => exact not_hasForeign_empty _
    | false =>
      refine h ?_
      rw [step, ProcessorTags.commitWrites_eq, hupdate] at hasked
      exact (Bool.and_true _).symm.trans hasked

/-- **One commit.** -/
theorem asked_of_publishesForeign_iff (h : inv.MovedAsked) (recordLog : Bool) :
    (inv.tags.PublishesForeign recordLog → inv.asked = true) ↔
      ¬ inv.LeaksExternal recordLog := by
  rw [ProcessorTags.publishesForeign_iff]
  constructor
  · rintro hasks ⟨hupdate, hexternal, hnot, hforeign⟩
    refine Bool.false_ne_true (hnot.symm.trans (hasks ⟨hupdate, hexternal, ?_⟩))
    rcases hforeign with ⟨hdirty | ⟨hlog, hmode⟩, hvalues⟩ | ⟨hlog, hmode, htouched⟩
    · exact .inl ⟨hdirty, hvalues⟩
    · refine .inr ⟨hlog, ?_⟩
      rw [ProcessorTags.logged, hmode]
      exact hvalues
    · refine .inr ⟨hlog, ?_⟩
      rw [ProcessorTags.logged, hmode]
      exact htouched
  · rintro hno ⟨hupdate, hexternal, hforeign⟩
    by_contra hasked
    have hnot := (Bool.not_eq_true _).mp hasked
    refine hno ⟨hupdate, hexternal, hnot, ?_⟩
    rcases hforeign with ⟨hdirty, hvalues⟩ | ⟨hlog, hlogged⟩
    · exact .inl ⟨.inl hdirty, hvalues⟩
    · rw [ProcessorTags.logged] at hlogged
      cases hmode : inv.tags.logMode with
      | always =>
        rw [hmode] at hlogged
        exact .inl ⟨.inr ⟨hlog, rfl⟩, hlogged⟩
      | never =>
        rw [hmode] at hlogged
        exact absurd hlogged (not_hasForeign_empty _)
      | onlyChanged =>
        rw [hmode] at hlogged
        exact absurd hlogged (h hnot)
      | onlySet =>
        rw [hmode] at hlogged
        exact .inr ⟨hlog, rfl, hlogged⟩

/-- **When other apps are published only after a request.**  Other apps' keys are in what a
commit publishes only if, since the last commit that published something, one of their tags
was set to another value or with a request to log it, exactly when no commit finds the flag
left over and another app in what it pushes or logs. -/
theorem external_after_request_iff (appKey : String) (seed : Json) (recordTagUpdate : Bool)
    (calls : List ProcessorTagsCall) :
    (∀ pre recordLog, pre ++ [.commitTagsWith recordLog] <+: calls →
        (exec step (start appKey seed recordTagUpdate) pre).tags.PublishesForeign recordLog →
          (exec step (start appKey seed recordTagUpdate) pre).asked = true) ↔
      ∀ pre recordLog, pre ++ [.commitTagsWith recordLog] <+: calls →
        ¬ (exec step (start appKey seed recordTagUpdate) pre).LeaksExternal recordLog := by
  refine forall_congr' fun pre => forall_congr' fun recordLog => imp_congr_right fun _ => ?_
  refine asked_of_publishesForeign_iff ?_ recordLog
  exact exec_invariant step (movedAsked_start appKey seed recordTagUpdate)
    fun _ h c _ => movedAsked_step h c

/-- Another app's tag is set and committed, then one of the app's own. -/
def externalThenOwn : List ProcessorTagsCall :=
  [.setTagWith "remote" (.bool true) ⟨some "other_app", false⟩, .commitTagsWith false,
    .setTagWith "voltage" (.bool true) ⟨none, false⟩]

def bothApps : Json :=
  .ofList [("other_app", .ofList [("remote", .bool true)]),
    ("test_app", .ofList [("voltage", .bool true)])]

/-- The second commit is about the other app again. -/
theorem external_republished :
    (exec step (start "test_app" (.object .empty) true) externalThenOwn).asked = false ∧
      (exec step (start "test_app" (.object .empty) true) externalThenOwn).tags.commitWrites
          false =
        [.aggregate bothApps true, .message bothApps true] ∧
      (exec step (start "test_app" (.object .empty) true) externalThenOwn).tags.PublishesForeign
        false := by
  refine ⟨rfl, rfl, .aggregate bothApps true, List.mem_cons_self, "other_app", by decide, ?_⟩
  intro hnone
  cases hnone

end TagsInvocation
end Doover
