import Doover.TagWrites
import Doover.TagsSequential

/-! # A flushing write whose RPC fails

The write stays in the pending buffer and nothing else records that it was not
sent.  So the same call again compares equal with what is pending and sends nothing,
and a commit sends the write only if the dirty flag was set before, by another
write.

Runs are described by what each path holds once a commit has succeeded (`settled`).
As long as every failing write finds the dirty flag set, that is at each path the
value written last; the invariant `Synced` adds what the drop of unchanged writes
needs, that the cache holds nothing the agent does not.
-/

namespace Doover
namespace TagsRetry
open Json StepRuns

/-- A write of values other than `null`. -/
structure Write where
  tags : IndexMap String Json
  noNull : (Json.object tags).NoNull

inductive Call where
  /-- `set_nested_tags`, with the answer of its RPC. -/
  | set (write : Write) (opts : SetTagOptions) (rpc : Bool)
  /-- `commit_tags`. -/
  | commit (env : CommitEnv)

/-- The runtime, and the aggregate as the agent has it. -/
structure Host where
  st : TagsState
  agent : Json

/-- After a call, the agent has applied the payloads that succeeded. -/
def Host.after (h : Host) (o : Outcome) : Host :=
  ⟨o.st, (o.aggregates true).foldl (fun agg payload => applyDiff agg payload false) h.agent⟩

def step (h : Host) : Call → Host
  | .set write opts rpc => h.after (h.st.setNestedTagsCall (.object write.tags) opts rpc)
  | .commit env => h.after (h.st.commitTagsCall env)

/-- Nothing is pending. -/
def start (st : TagsState) (agg : Json) : Host :=
  ⟨{ st with pendingAggregate := emptyObject, dirty := false }, agg⟩

/-- The cache has no value that the agent does not have too. -/
def Agrees (cache agent : Json) : Prop :=
  ∀ p v, p ≠ [] → cache.valueAt p = some v → agent.valueAt p = some v

/-! ## The repeated call -/

/-- A write that is pending changes nothing, whatever the cache has. -/
theorem suppresses_of_pending {st : TagsState} {pending tags : Json}
    (h : st.pendingAggregate = applyDiff pending tags false) (flush log : Bool) :
    st.suppresses tags ⟨true, flush, log⟩ = true := by
  rw [TagsState.suppresses, Bool.true_and, TagsState.current, h]
  refine isEmptyObject_generateDiff_of_held (fun p v hp hv => ?_) (fun p o hp => ?_)
  · have hleaf : tags.valueAt p = some v := valueAt_eq_some.mpr ⟨hp, hv⟩
    exact ⟨v, lookup_applyDiff_of_valueAt (valueAt_applyDiff_of_valueAt hleaf _) _,
      pythonJsonEq_refl v⟩
  · obtain ⟨r, hr⟩ := lookup_applyDiff_object hp pending false
    exact lookup_applyDiff_object hr st.tagValues false

/-- A flushing write that returns `Err` was sent, and it is pending. -/
theorem setNestedTagsCall_err {st : TagsState} {tags : Json} {opts : SetTagOptions} {rpc : Bool}
    (h : (st.setNestedTagsCall tags opts rpc).ok = false) :
    let st' := (st.setNestedTagsCall tags opts rpc).st
    st'.tagValues = st.tagValues ∧
      st'.pendingAggregate = applyDiff st.pendingAggregate tags false ∧
      st'.dirty = st.dirty := by
  cases hs : st.suppresses tags opts with
  | true =>
    rw [TagsState.setNestedTagsCall_of_suppresses st tags opts rpc hs] at h
    cases h
  | false =>
    cases hf : opts.flush with
    | false =>
      obtain ⟨st', ho, -⟩ := TagsState.setNestedTagsCall_buffered st tags opts rpc hs hf
      rw [ho] at h
      cases h
    | true =>
      obtain ⟨st', ho, hst⟩ := TagsState.setNestedTagsCall_flush st tags opts rpc hs hf
      rw [ho] at h ⊢
      obtain rfl : rpc = false := h
      exact hst

/-- The same call again sends nothing. -/
theorem repeat_sends_nothing {st : TagsState} {tags : Json} {log rpc : Bool}
    (h : (st.setNestedTagsCall tags ⟨true, true, log⟩ rpc).ok = false) (rpc' : Bool) :
    let st' := (st.setNestedTagsCall tags ⟨true, true, log⟩ rpc).st
    st'.setNestedTagsCall tags ⟨true, true, log⟩ rpc' = ⟨st', [], true⟩ :=
  TagsState.setNestedTagsCall_of_suppresses _ _ _ _
    (suppresses_of_pending (setNestedTagsCall_err h).2.1 true log)

/-- A commit sends the write exactly when the dirty flag was set before the call. -/
theorem commit_sends_iff {st : TagsState} {tags : Json} {opts : SetTagOptions} {rpc : Bool}
    (h : (st.setNestedTagsCall tags opts rpc).ok = false) {env : CommitEnv}
    (henv : env.flush = true) :
    (∃ payload ∈ ((st.setNestedTagsCall tags opts rpc).st.commitTagsCall env).aggregates true,
      ∀ p v, tags.valueAt p = some v → payload.valueAt p = some v) ↔ st.dirty = true := by
  obtain ⟨-, hp, hd⟩ := setNestedTagsCall_err h
  rw [(TagsState.commitTagsCall_stores _ env).2 true, henv]
  cases hdirty : st.dirty with
  | false =>
    rw [TagsState.flushTagsCall_of_clean _ _ (hd.trans hdirty)]
    simp [Outcome.aggregates]
  | true =>
    rw [TagsState.flushTagsCall_of_dirty _ _ (hd.trans hdirty)]
    refine iff_of_true ⟨_, List.mem_singleton_self _, fun p v hv => ?_⟩ rfl
    rw [hp]
    exact valueAt_applyDiff_of_valueAt hv _

/-! ## What a commit is going to leave -/

/-- The value the agent has at a path once a commit has succeeded. -/
def settled (h : Host) (p : List String) : Option Json :=
  afterWrite p (h.agent.valueAt p) h.st.pendingAggregate

/-- The cache has nothing the agent does not have, and while the dirty flag is not
set, nothing pending is news to the agent. -/
structure Synced (h : Host) : Prop where
  cache : Agrees h.st.tagValues h.agent
  clean : h.st.dirty = false → ∀ p, p ≠ [] → settled h p = h.agent.valueAt p
  noNull : h.st.pendingAggregate.NoNull

/-- A flushing write that fails finds the dirty flag set. -/
def FailsDirty (h : Host) : Call → Prop
  | .set write opts false =>
    h.st.suppresses (.object write.tags) opts = false → opts.flush = true → h.st.dirty = true
  | _ => True

/-- The flush of a commit succeeds. -/
def FlushSucceeds : Call → Prop
  | .commit env => env.flush = true
  | _ => True

theorem afterWrite_empty {p : List String} (hp : p ≠ []) (last : Option Json) :
    afterWrite p last emptyObject = last := by
  cases p with
  | nil => exact absurd rfl hp
  | cons k p => exact afterWrite_of_misses (misses_empty k p) last

theorem synced_start {st : TagsState} {agg : Json} (h : Agrees st.tagValues agg) :
    Synced (start st agg) where
  cache := h
  clean _ _ hp := afterWrite_empty hp _
  noNull := noNull_empty

theorem after_nil (h : Host) (st : TagsState) (ok : Bool) :
    h.after ⟨st, [], ok⟩ = ⟨st, h.agent⟩ := rfl

theorem after_aggregate (h : Host) (st : TagsState) (payload : Json) (rpc ok : Bool) :
    h.after ⟨st, [(.updateAggregate payload, rpc)], ok⟩ =
      ⟨st, if rpc then applyDiff h.agent payload false else h.agent⟩ := by
  cases rpc <;> rfl

theorem Agrees.applyDiff {cache agent payload : Json} (h : Agrees cache agent)
    (hp : payload.NoNull) : Agrees (applyDiff cache payload true) (applyDiff agent payload false) := by
  intro p v hne hv
  rw [hp.valueAt_applyDiff] at hv
  rw [valueAt_applyDiff]
  exact afterWrite_mono (fun v => h p v hne) hv

/-- A write that is not dropped: its values, and what it misses, are settled after. -/
theorem synced_set {h : Host} (hs : Synced h) (write : Write) {opts : SetTagOptions} {rpc : Bool}
    (hsup : h.st.suppresses (.object write.tags) opts = false)
    (hd : FailsDirty h (.set write opts rpc)) :
    Synced (step h (.set write opts rpc)) ∧ ∀ p v,
      afterWrite p (settled h p) (.object write.tags) = some v →
        settled (step h (.set write opts rpc)) p = some v := by
  have hnull := hs.noNull.applyDiff write.noNull
  have hsettled : ∀ p v, afterWrite p (settled h p) (.object write.tags) = some v →
      afterWrite p (h.agent.valueAt p)
        (applyDiff h.st.pendingAggregate (.object write.tags) false) = some v := by
    intro p v hv
    rcases afterWrite_eq_some.mp hv with ht | ⟨hm, hl⟩
    · exact afterWrite_buffer_of_valueAt ht _ _
    · exact afterWrite_buffer_of_misses hm hl
  cases hf : opts.flush with
  | false =>
    obtain ⟨st, ho, hv, hp, hdirty⟩ :=
      TagsState.setNestedTagsCall_buffered h.st _ opts rpc hsup hf
    rw [step, ho, after_nil]
    refine ⟨⟨?_, fun hclean => ?_, ?_⟩, fun p v h' => ?_⟩
    · rw [hv]
      exact hs.cache
    · rw [hdirty] at hclean
      cases hclean
    · rw [hp]
      exact hnull
    · rw [settled, hp]
      exact hsettled p v h'
  | true =>
    obtain ⟨st, ho, hv, hp, hdirty⟩ := TagsState.setNestedTagsCall_flush h.st _ opts rpc hsup hf
    rw [step, ho, after_aggregate]
    cases rpc with
    | false =>
      refine ⟨⟨?_, fun hclean => ?_, ?_⟩, fun p v h' => ?_⟩
      · rw [if_neg Bool.false_ne_true, if_neg Bool.false_ne_true, hv]
        exact hs.cache
      · -- the flag was set, so the commit that follows sends the write
        have : h.st.dirty = true := hd hsup hf
        rw [if_neg Bool.false_ne_true, hdirty, this] at hclean
        cases hclean
      · rw [if_neg Bool.false_ne_true, hp]
        exact hnull
      · rw [settled, if_neg Bool.false_ne_true, hp]
        exact hsettled p v h'
    | true =>
      simp only [if_true]
      refine ⟨⟨?_, fun _ p _ => ?_, ?_⟩, fun p v h' => ?_⟩
      · change Agrees (applyDiff st.tagValues st.pendingAggregate true) _
        rw [hv, hp]
        exact hs.cache.applyDiff hnull
      · change afterWrite p (valueAt _ p) st.pendingAggregate = _
        rw [hp, valueAt_applyDiff, afterWrite_idem]
      · change NoNull st.pendingAggregate
        rw [hp]
        exact hnull
      · change afterWrite p (valueAt _ p) st.pendingAggregate = _
        rw [hp, valueAt_applyDiff, afterWrite_idem]
        exact hsettled p v h'

/-- A commit settles nothing anew, and leaves nothing pending. -/
theorem synced_commit {h : Host} (hs : Synced h) {env : CommitEnv} (henv : env.flush = true) :
    Synced (step h (.commit env)) ∧ (step h (.commit env)).st.dirty = false ∧
      ∀ p, p ≠ [] → settled (step h (.commit env)) p = settled h p := by
  obtain ⟨⟨hv, hp, hd⟩, ha⟩ := TagsState.commitTagsCall_stores h.st env
  rw [henv] at hv hp hd ha
  have hstep : (step h (.commit env)).agent =
      ((h.st.flushTagsCall true).aggregates true).foldl
        (fun agg payload => applyDiff agg payload false) h.agent := by
    rw [step, Host.after, ha]
  cases hdirty : h.st.dirty with
  | false =>
    rw [TagsState.flushTagsCall_of_clean _ _ hdirty] at hv hp hd hstep
    have hagent : (step h (.commit env)).agent = h.agent := hstep
    have hsettled : ∀ p, settled (step h (.commit env)) p = settled h p := fun p => by
      rw [settled, settled, hagent]
      exact congrArg _ hp
    refine ⟨⟨?_, fun _ p hne => ?_, ?_⟩, hd.trans hdirty, fun p _ => hsettled p⟩
    · rw [hagent]
      exact hv ▸ hs.cache
    · rw [hsettled, hagent]
      exact hs.clean hdirty p hne
    · exact hp ▸ hs.noNull
  | true =>
    rw [TagsState.flushTagsCall_of_dirty _ _ hdirty] at hv hp hd hstep
    have hagent : (step h (.commit env)).agent =
        applyDiff h.agent h.st.pendingAggregate false := hstep
    have hsettled : ∀ p, p ≠ [] → settled (step h (.commit env)) p =
        (step h (.commit env)).agent.valueAt p := fun p hne => by
      rw [settled]
      change afterWrite p _ (h.st.commitTagsCall env).st.pendingAggregate = _
      rw [hp]
      exact afterWrite_empty hne _
    refine ⟨⟨?_, fun _ p hne => hsettled p hne, ?_⟩, hd, fun p hne => ?_⟩
    · rw [hagent]
      change Agrees (h.st.commitTagsCall env).st.tagValues _
      rw [hv]
      exact hs.cache.applyDiff hs.noNull
    · change NoNull (h.st.commitTagsCall env).st.pendingAggregate
      rw [hp]
      exact noNull_empty
    · rw [hsettled p hne, hagent, valueAt_applyDiff]
      rfl

/-! ## Runs -/

/-- The writes of a run. -/
def writes (calls : List Call) : List Json :=
  calls.filterMap fun
    | .set write _ _ => some (.object write.tags)
    | _ => none

/-- The writes of a run that were not dropped as unchanged. -/
def accepted (h : Host) : List Call → List Json
  | [] => []
  | .set write opts rpc :: calls =>
    let rest := accepted (step h (.set write opts rpc)) calls
    if h.st.suppresses (.object write.tags) opts then rest else .object write.tags :: rest
  | .commit env :: calls => accepted (step h (.commit env)) calls

theorem writes_set (write : Write) (opts : SetTagOptions) (rpc : Bool) :
    writes [.set write opts rpc] = [.object write.tags] := rfl

theorem writes_commit (env : CommitEnv) : writes [.commit env] = [] := rfl

theorem accepted_append (h : Host) (calls more : List Call) :
    accepted h (calls ++ more) = accepted h calls ++ accepted (exec step h calls) more := by
  induction calls generalizing h with
  | nil => rfl
  | cons c calls ih =>
    cases c with
    | set write opts rpc =>
      rw [List.cons_append, accepted, accepted, exec_cons, ih]
      split <;> rfl
    | commit env =>
      rw [List.cons_append, accepted, accepted, exec_cons, ih]

/-- What is settled at each path: the accepted write, and up to Python's equality the
last one. -/
structure Settles (h : Host) (taken all : List Json) : Prop where
  accepted : ∀ p v, lastWritten taken p = some v → p ≠ [] ∧ settled h p = some v
  written : ∀ p v, lastWritten all p = some v →
    p ≠ [] ∧ ∃ c, settled h p = some c ∧ pythonJsonEq c v = true

/-- What the drop of an unchanged write has seen is settled. -/
theorem settled_of_suppresses {h : Host} (hs : Synced h) {write : Write} {opts : SetTagOptions}
    (hsup : h.st.suppresses (.object write.tags) opts = true) {p : List String} {v : Json}
    (hv : (Json.object write.tags).valueAt p = some v) :
    ∃ c, settled h p = some c ∧ pythonJsonEq c v = true := by
  obtain ⟨hl, hvl⟩ := valueAt_eq_some.mp hv
  rw [TagsState.suppresses, Bool.and_eq_true] at hsup
  obtain ⟨c, hc, hcv⟩ := lookup_of_isEmptyObject_generateDiff hsup.2 hl hvl
  have hcl : c.isObject = false := (isObject_of_pythonJsonEq hcv).trans hvl
  refine ⟨c, ?_, hcv⟩
  have hshown : h.st.current.valueAt p = some c := valueAt_eq_some.mpr ⟨hc, hcl⟩
  rw [TagsState.current, valueAt_applyDiff] at hshown
  exact afterWrite_mono (fun v => hs.cache p v (ne_nil_of_valueAt hv)) hshown

theorem settles_step {h : Host} (hs : Synced h) {taken all : List Json} (hh : Settles h taken all)
    {c : Call} (hd : FailsDirty h c) (hc : FlushSucceeds c) :
    Synced (step h c) ∧ Settles (step h c) (taken ++ accepted h [c]) (all ++ writes [c]) := by
  cases c with
  | set write opts rpc =>
    cases hsup : h.st.suppresses (.object write.tags) opts with
    | true =>
      have hstep : step h (.set write opts rpc) = h := by
        rw [step, TagsState.setNestedTagsCall_of_suppresses _ _ _ _ hsup, after_nil]
      have htaken : accepted h [.set write opts rpc] = [] := by simp [accepted, hsup]
      rw [hstep, htaken, List.append_nil]
      refine ⟨hs, hh.accepted, fun p v hlast => ?_⟩
      rw [writes_set, lastWritten_concat, afterWrite_eq_some] at hlast
      rcases hlast with hv | ⟨-, hlast⟩
      · exact ⟨ne_nil_of_valueAt hv, settled_of_suppresses hs hsup hv⟩
      · exact hh.written p v hlast
    | false =>
      obtain ⟨hs', hsettled⟩ := synced_set hs write hsup hd
      have htaken : accepted h [.set write opts rpc] = [.object write.tags] := by
        simp [accepted, hsup]
      rw [htaken]
      refine ⟨hs', fun p v hlast => ?_, fun p v hlast => ?_⟩
      · rw [lastWritten_concat] at hlast
        rcases afterWrite_eq_some.mp hlast with hv | ⟨hm, hold⟩
        · exact ⟨ne_nil_of_valueAt hv, hsettled p v (afterWrite_of_valueAt hv _)⟩
        · obtain ⟨hne, hset⟩ := hh.accepted p v hold
          exact ⟨hne, hsettled p v (by rw [afterWrite_of_misses hm, hset])⟩
      · rw [writes_set, lastWritten_concat, afterWrite_eq_some] at hlast
        rcases hlast with hv | ⟨hm, hold⟩
        · exact ⟨ne_nil_of_valueAt hv, v, hsettled p v (afterWrite_of_valueAt hv _),
            pythonJsonEq_refl v⟩
        · obtain ⟨hne, c, hset, hcv⟩ := hh.written p v hold
          exact ⟨hne, c, hsettled p c (by rw [afterWrite_of_misses hm, hset]), hcv⟩
  | commit env =>
    obtain ⟨hs', -, hsettled⟩ := synced_commit hs hc
    refine ⟨hs', fun p v hlast => ?_, fun p v hlast => ?_⟩
    · rw [accepted, accepted, List.append_nil] at hlast
      obtain ⟨hne, hset⟩ := hh.accepted p v hlast
      exact ⟨hne, (hsettled p hne).trans hset⟩
    · rw [writes_commit, List.append_nil] at hlast
      obtain ⟨hne, c, hset, hcv⟩ := hh.written p v hlast
      exact ⟨hne, c, (hsettled p hne).trans hset, hcv⟩

theorem settles_exec {st : TagsState} {agg : Json} (hagg : Agrees st.tagValues agg)
    {calls : List Call} (hflush : ∀ c ∈ calls, FlushSucceeds c)
    (hdirty : ∀ pre c, pre ++ [c] <+: calls → FailsDirty (exec step (start st agg) pre) c) :
    ∀ pre, pre <+: calls → Synced (exec step (start st agg) pre) ∧
      Settles (exec step (start st agg) pre) (accepted (start st agg) pre) (writes pre) := by
  refine prefix_induction ?_ fun pre c hpre h => ?_
  · exact ⟨synced_start hagg, ⟨fun p v h => by simp [accepted] at h,
      fun p v h => by simp [writes] at h⟩⟩
  · rw [exec_concat, accepted_append, writes, List.filterMap_append]
    exact settles_step h.1 h.2 (hdirty pre c hpre) (hflush c (hpre.subset (by simp)))

/-- **What a failed flushing write leaves.**  The same call again never sends
anything, and a commit sends the write exactly when the dirty flag was set before
the call.  A run in which every failing write finds the flag set, and whose flushes
succeed, leaves the agent, after a commit, with the value accepted last at each path,
and up to Python's equality the one written last. -/
theorem failed_write (st : TagsState) (tags : Json) (log : Bool) (agg : Json)
    (calls : List Call) (env : CommitEnv) (henv : env.flush = true) :
    ((st.setNestedTagsCall tags ⟨true, true, log⟩ false).ok = false →
      let st' := (st.setNestedTagsCall tags ⟨true, true, log⟩ false).st
      (∀ rpc, st'.setNestedTagsCall tags ⟨true, true, log⟩ rpc = ⟨st', [], true⟩) ∧
        ((∃ payload ∈ (st'.commitTagsCall env).aggregates true,
          ∀ p v, tags.valueAt p = some v → payload.valueAt p = some v) ↔ st.dirty = true)) ∧
      (Agrees st.tagValues agg → (∀ c ∈ calls, FlushSucceeds c) →
        (∀ pre c, pre ++ [c] <+: calls → FailsDirty (exec step (start st agg) pre) c) →
          let h := exec step (start st agg) (calls ++ [.commit env])
          (∀ p v, lastWritten (accepted (start st agg) calls) p = some v →
            h.agent.lookup p = some v) ∧
          ∀ p v, lastWritten (writes calls) p = some v → h.agent.holds p v = true) := by
  refine ⟨fun h => ⟨repeat_sends_nothing h, commit_sends_iff h henv⟩, ?_⟩
  intro hagg hflush hdirty
  obtain ⟨hs, hset⟩ := settles_exec hagg hflush hdirty calls (List.prefix_refl calls)
  obtain ⟨hs', hclean, hsettled⟩ := synced_commit hs henv
  have hagent : ∀ p, p ≠ [] → (exec step (start st agg) (calls ++ [.commit env])).agent.valueAt p =
      settled (exec step (start st agg) calls) p := fun p hne => by
    rw [exec_concat, ← hs'.clean hclean p hne, hsettled p hne]
  refine ⟨fun p v hlast => ?_, fun p v hlast => ?_⟩
  · obtain ⟨hne, h⟩ := hset.accepted p v hlast
    exact (valueAt_eq_some.mp ((hagent p hne).trans h)).1
  · obtain ⟨hne, c, h, hcv⟩ := hset.written p v hlast
    exact holds_iff.mpr ⟨c, (valueAt_eq_some.mp ((hagent p hne).trans h)).1, hcv⟩

/-- The write of one tag. -/
def Write.ofTag (appKey key : String) (v : Json) (hv : v.isObject = false) (hnull : v ≠ .null) :
    Write where
  tags := IndexMap.empty.insert appKey (KeyPath.construct ⟨[key]⟩ v)
  noNull := by
    intro p h
    obtain ⟨hl, -⟩ := valueAt_eq_some.mp h
    obtain ⟨-, hx⟩ := KeyPath.eq_of_lookup_construct (p := [appKey, key]) hv rfl hl
    exact hnull hx.symm

/-- `failed_write` for a tag whose flushing write fails on a fresh runtime, and for a
run in which another tag was buffered before. -/
theorem failed_write_fresh :
    let tag := Write.ofTag "a" "k" (.bool true) rfl Json.noConfusion
    let other := Write.ofTag "a" "l" (.bool true) rfl Json.noConfusion
    let st' := (TagsState.default.setNestedTagsCall (.object tag.tags) ⟨true, true, false⟩ false).st
    let calls : List Call := [.set other .default true, .set tag ⟨true, true, false⟩ false]
    (∀ rpc, st'.setNestedTagsCall (.object tag.tags) ⟨true, true, false⟩ rpc = ⟨st', [], true⟩) ∧
      (exec step (start .default emptyObject)
        (calls ++ [.commit ⟨0, 0, true, true, true, true⟩])).agent.holds ["a", "k"] (.bool true) =
          true := by
  intro tag other st' calls
  have hfailed := failed_write .default (.object tag.tags) false emptyObject calls
    ⟨0, 0, true, true, true, true⟩ rfl
  refine ⟨(hfailed.1 (by decide)).1, ?_⟩
  refine (hfailed.2 (fun p v _ h => h) ?_ ?_).2 ["a", "k"] (.bool true) (by rfl)
  · intro c hc
    rcases List.mem_cons.mp hc with rfl | hc
    · trivial
    · rw [List.mem_singleton.mp hc]
      trivial
  · intro pre c hpre
    match pre with
    | [] =>
      obtain rfl : c = .set other .default true := (List.cons_prefix_cons.mp hpre).1
      trivial
    | [c₀] =>
      obtain ⟨rfl, htail⟩ := List.cons_prefix_cons.mp hpre
      obtain rfl : c = .set tag ⟨true, true, false⟩ false := (List.cons_prefix_cons.mp htail).1
      exact fun _ _ => rfl
    | c₀ :: c₁ :: c₂ :: pre =>
      exact absurd hpre.length_le (by simp [calls])
    | [c₀, c₁] => exact absurd hpre.length_le (by simp [calls])

/-- The flushing write of a tag fails on a fresh runtime.  The same call again
returns `Ok` without a request, a commit has nothing to send, and the agent never
gets the tag. -/
theorem failed_write_forgotten :
    let tags := KeyPath.construct ⟨["a", "k"]⟩ (.bool true)
    let failed := TagsState.default.setNestedTagsCall tags ⟨true, true, false⟩ false
    let again := failed.st.setNestedTagsCall tags ⟨true, true, false⟩ true
    let commit := again.st.commitTagsCall ⟨0, 0, true, true, true, true⟩
    failed.ok = false ∧ again.requests = [] ∧ again.ok = true ∧
      commit.aggregates true = [] ∧ commit.ok = true ∧
      (commit.st.getTag "a" "k").isSome = true :=
  ⟨rfl, rfl, rfl, rfl, rfl, rfl⟩

end TagsRetry
end Doover
