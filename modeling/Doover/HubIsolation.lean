import Doover.HubEntries

/-! # Channels apart from each other

Two channels share nothing in the hub when their keys differ: what is seen of the one is
the same in any two runs that differ only in what concerns the other, and each has a
task of its own (`isolated_iff`).  Keys of different channels differ, except that an own
channel may be named like another agent's channel with its prefix (`Collide`); then one
entry, and one task, is there for both.
-/

namespace Doover
namespace SubscriptionHub
open StepRuns

/-! ## Runs that agree under a key -/

section Agree
variable {k : String} {w w' : World}

theorem SameExcept.insert (h : SameExcept k w w') (key : String) (st : ChannelState) :
    SameExcept k { w with channels := w.channels.insert key st }
      { w' with channels := w'.channels.insert key st } := by
  refine ⟨fun key' hk => ?_, h.aggregates, h.agent⟩
  by_cases heq : key' = key
  · subst heq
    exact (IndexMap.get?_insert_self ..).trans (IndexMap.get?_insert_self ..).symm
  · exact ((IndexMap.get?_insert_of_ne st heq).trans (h.channels key' hk)).trans
      (IndexMap.get?_insert_of_ne st heq).symm

theorem SameExcept.insert_agent (h : SameExcept k w w') (ch : ChannelRef) (data : Json) :
    SameExcept k { w with agent := w.agent.insert ch data }
      { w' with agent := w'.agent.insert ch data } := by
  refine ⟨h.channels, h.aggregates, fun ch' hk => ?_⟩
  by_cases heq : ch' = ch
  · subst heq
    exact (IndexMap.get?_insert_self ..).trans (IndexMap.get?_insert_self ..).symm
  · exact ((IndexMap.get?_insert_of_ne data heq).trans (h.agent ch' hk)).trans
      (IndexMap.get?_insert_of_ne data heq).symm

theorem SameExcept.insert_aggregate (h : SameExcept k w w') (key : String) (data : Json) :
    SameExcept k { w with aggregates := w.aggregates.insert key data }
      { w' with aggregates := w'.aggregates.insert key data } := by
  refine ⟨h.channels, fun key' hk => ?_, h.agent⟩
  by_cases heq : key' = key
  · subst heq
    exact (IndexMap.get?_insert_self ..).trans (IndexMap.get?_insert_self ..).symm
  · exact ((IndexMap.get?_insert_of_ne data heq).trans (h.aggregates key' hk)).trans
      (IndexMap.get?_insert_of_ne data heq).symm

theorem SameExcept.apply (h : SameExcept k w w') (e : StreamEffect) (key : String)
    (target : ChannelRef) : SameExcept k (e.apply w key target) (e.apply w' key target) := by
  obtain ⟨st, cached, created⟩ := e
  have hst := h.insert key st
  cases cached with
  | none =>
    cases created with
    | false => exact hst
    | true => exact hst.insert_agent target (.object .empty)
  | some v =>
    cases created with
    | false => exact hst.insert_aggregate key v
    | true => exact (hst.insert_aggregate key v).insert_agent target (.object .empty)

theorem SameExcept.enqueue (h : SameExcept k w w') (ch : ChannelRef) (ev : Event)
    (hk : ch.cacheKey ≠ k) : SameExcept k (w.enqueue ch ev) (w'.enqueue ch ev) := by
  rw [World.enqueue, World.enqueue, ← h.channels _ hk]
  cases w.channels.get? ch.cacheKey with
  | none => exact h
  | some st => exact h.insert ch.cacheKey _

theorem SameExcept.task (h : SameExcept k w w') (hw : InOrder w) (key : String) (a : StreamAct)
    (hk : key ≠ k) : SameExcept k (step w (.task key a)) (step w' (.task key a)) := by
  rw [step, step, ← h.channels _ hk]
  cases hst : w.channels.get? key with
  | none => exact h
  | some st =>
    obtain ⟨⟨target, phase, htask, hkey⟩, -⟩ := hw key st hst
    simp only [htask]
    have hagent := h.agent target (hkey ▸ hk)
    rcases stepStream_local key st ⟨target, phase⟩ a (w.agent.get? target) with hsame | ⟨e, -, he⟩
    · rw [hsame w rfl, hsame w' hagent.symm]
      exact h
    · rw [he w rfl, he w' hagent.symm]
      exact h.apply e key target

/-- An input that is not under `k` keeps two hubs alike but for `k`. -/
theorem SameExcept.feed (h : SameExcept k w w') (hw : InOrder w) (i : Input)
    (hk : i.key ≠ k) : SameExcept k (feed w i) (feed w' i) := by
  cases i with
  | arrive ch ev => exact h.enqueue ch ev hk
  | act a =>
    cases a with
    | subscribe ch events =>
      have hst := h.channels ch.cacheKey hk
      show SameExcept k (w.subscribe ch events) (w'.subscribe ch events)
      rw [World.subscribe, World.subscribe, ← hst]
      exact h.insert ch.cacheKey _
    | write ch data => exact (h.insert_agent ch data).enqueue ch _ hk
    | emit ch ev =>
      show SameExcept k (step w (.emit ch ev)) (step w' (.emit ch ev))
      rw [step, step]
      split
      · exact h
      · exact h.enqueue ch ev hk
    | task key a => exact h.task hw key a hk

/-- Nor does an input under `k`. -/
theorem SameExcept.feed_both (h : SameExcept k w w') (hw : InOrder w) (hw' : InOrder w')
    (i : Input) : SameExcept k (SubscriptionHub.feed w i) (SubscriptionHub.feed w' i) := by
  by_cases hk : i.key = k
  · subst hk
    exact ((sameExcept_feed hw i).trans h).trans (sameExcept_feed hw' i).symm
  · exact h.feed hw i hk

theorem SameExcept.exec (h : SameExcept k w w') (hw : InOrder w) (hw' : InOrder w')
    (is : List Input) :
    SameExcept k (exec SubscriptionHub.feed w is) (exec SubscriptionHub.feed w' is) := by
  induction is generalizing w w' with
  | nil => exact h
  | cons i is ih => exact ih (h.feed_both hw hw' i) (inOrder_feed hw i) (inOrder_feed hw' i)

/-- Inputs under `k` may be left out. -/
theorem sameExcept_filter (keep : Input → Bool) (hkeep : ∀ i, keep i = false → i.key = k)
    (h : SameExcept k w w') (hw : InOrder w) (hw' : InOrder w') (is : List Input) :
    SameExcept k (exec SubscriptionHub.feed w is)
      (exec SubscriptionHub.feed w' (is.filter keep)) := by
  induction is generalizing w w' with
  | nil => exact h
  | cons i is ih =>
    cases hi : keep i with
    | true =>
      rw [List.filter_cons_of_pos hi]
      exact ih (h.feed_both hw hw' i) (inOrder_feed hw i) (inOrder_feed hw' i)
    | false =>
      rw [List.filter_cons_of_neg (by rw [hi]; exact Bool.false_ne_true)]
      have hstep : SameExcept k (SubscriptionHub.feed w i) w' := by
        have hframe := sameExcept_feed hw i
        rw [hkeep i hi] at hframe
        exact hframe.trans h
      exact ih hstep (inOrder_feed hw i) hw'

end Agree

/-! ## Keys -/

/-- An own channel named like another agent's channel with its prefix. -/
def Prefixed (own other : ChannelRef) : Prop :=
  own.agentId = none ∧
    ∃ agentId, other.agentId = some agentId ∧ own.name = toString agentId ++ ":" ++ other.name

def Collide (r₁ r₂ : ChannelRef) : Prop := Prefixed r₁ r₂ ∨ Prefixed r₂ r₁

theorem colon_not_mem_digits (n : ℕ) : ':' ∉ Nat.toDigits 10 n := by
  intro h
  have hdigit : (':').isDigit = true := Nat.isDigit_of_mem_toDigits (by omega) (by omega) h
  exact absurd hdigit (by decide)

/-- A separator in neither prefix: the prefixes are what stands before it. -/
theorem append_cons_inj {α : Type} {a : α} {xs ys xs' ys' : List α} (hx : a ∉ xs) (hx' : a ∉ xs')
    (h : xs ++ a :: ys = xs' ++ a :: ys') : xs = xs' ∧ ys = ys' := by
  rcases List.append_eq_append_iff.mp h with ⟨zs, rfl, hz⟩ | ⟨zs, rfl, hz⟩
  · cases zs with
    | nil => exact ⟨(List.append_nil xs).symm, List.tail_eq_of_cons_eq hz⟩
    | cons z zs =>
      obtain rfl : a = z := List.head_eq_of_cons_eq hz
      exact absurd (List.mem_append_right xs List.mem_cons_self) hx'
  · cases zs with
    | nil => exact ⟨List.append_nil xs', (List.tail_eq_of_cons_eq hz).symm⟩
    | cons z zs =>
      obtain rfl : a = z := List.head_eq_of_cons_eq hz
      exact absurd (List.mem_append_right xs' List.mem_cons_self) hx

theorem prefix_inj {m n : ℕ} {s t : String}
    (h : toString m ++ ":" ++ s = toString n ++ ":" ++ t) : m = n ∧ s = t := by
  have hlist := congrArg String.toList h
  have hcolon : (":" : String).toList = [':'] := rfl
  rw [String.toList_append, String.toList_append, String.toList_append, String.toList_append,
    hcolon, List.append_assoc, List.append_assoc, List.singleton_append, List.singleton_append,
    show toString m = m.repr from rfl, show toString n = n.repr from rfl, Nat.toList_repr,
    Nat.toList_repr] at hlist
  obtain ⟨hdigits, hrest⟩ :=
    append_cons_inj (colon_not_mem_digits m) (colon_not_mem_digits n) hlist
  refine ⟨?_, String.toList_inj.mp hrest⟩
  rw [← Nat.ofDigitChars_ten_toDigits (n := m), hdigits, Nat.ofDigitChars_ten_toDigits]

/-- **Keys.**  Those of two channels are one only where an own channel has the prefixed name
of the other. -/
theorem cacheKey_eq_iff {r₁ r₂ : ChannelRef} (hne : r₁ ≠ r₂) :
    r₁.cacheKey = r₂.cacheKey ↔ Collide r₁ r₂ := by
  obtain ⟨n₁, a₁⟩ := r₁
  obtain ⟨n₂, a₂⟩ := r₂
  cases a₁ with
  | none =>
    cases a₂ with
    | none =>
      refine iff_of_false (fun h => hne ?_) ?_
      · rw [show n₁ = n₂ from h]
      · rintro (⟨-, i, hi, -⟩ | ⟨-, i, hi, -⟩) <;> cases hi
    | some i₂ =>
      constructor
      · intro h
        exact .inl ⟨rfl, i₂, rfl, h⟩
      · rintro (⟨-, i, hi, h⟩ | ⟨hi, -⟩)
        · cases hi
          exact h
        · cases hi
  | some i₁ =>
    cases a₂ with
    | none =>
      constructor
      · intro h
        exact .inr ⟨rfl, i₁, rfl, h.symm⟩
      · rintro (⟨hi, -⟩ | ⟨-, i, hi, h⟩)
        · cases hi
        · cases hi
          exact h.symm
    | some i₂ =>
      refine iff_of_false (fun h => hne ?_) ?_
      · obtain ⟨rfl, rfl⟩ : i₁ = i₂ ∧ n₁ = n₂ := prefix_inj h
        rfl
      · rintro (⟨hi, -⟩ | ⟨hi, -⟩) <;> cases hi

/-! ## Tasks -/

/-- The channel whose stream the task under a key follows. -/
def taskTarget (w : World) (key : String) : Option ChannelRef :=
  ((w.channels.get? key).bind ChannelState.task).map StreamTask.target

/-- The channel an input subscribes to under a key. -/
def Input.subscribed (key : String) : Input → Option ChannelRef
  | act (.subscribe ch _) => if ch.cacheKey = key then some ch else none
  | _ => none

theorem subscribed_of_ne {i : Input} {key : String} (h : i.key ≠ key) :
    i.subscribed key = none := by
  cases i with
  | arrive ch ev => rfl
  | act a =>
    cases a with
    | subscribe ch events => exact if_neg h
    | _ => rfl

theorem taskTarget_insert (w : World) (key : String) (st : ChannelState)
    (aggregates : IndexMap String Json) (agent : IndexMap ChannelRef Json) :
    taskTarget ⟨w.channels.insert key st, aggregates, agent⟩ key =
      st.task.map StreamTask.target := by
  rw [taskTarget, IndexMap.get?_insert_self]
  rfl

theorem taskTarget_enqueue (w : World) (ch : ChannelRef) (ev : Event) (key : String) :
    taskTarget (w.enqueue ch ev) key = taskTarget w key := by
  by_cases hk : key = ch.cacheKey
  · rcases enqueue_eq w ch ev with heq | ⟨st, task, hst, htask, heq⟩
    · rw [heq]
    · subst hk
      rw [heq, taskTarget_insert]
      show task.map StreamTask.target = _
      rw [htask, taskTarget, hst]
      rfl
  · rw [taskTarget, taskTarget, (sameExcept_enqueue w ch ev).channels key hk]

/-- A task follows the channel whose subscription started it. -/
theorem taskTarget_feed {w : World} (h : InOrder w) (i : Input) (key : String) :
    taskTarget (feed w i) key = (taskTarget w key).or (i.subscribed key) := by
  by_cases hk : i.key = key
  · cases i with
    | arrive ch ev => exact (taskTarget_enqueue w ch ev key).trans (Option.or_none ..).symm
    | act a =>
      cases a with
      | subscribe ch events =>
        obtain rfl : ch.cacheKey = key := hk
        show taskTarget (w.subscribe ch events) ch.cacheKey = _
        rw [World.subscribe, taskTarget_insert, Input.subscribed, if_pos rfl]
        cases hst : w.channels.get? ch.cacheKey with
        | none =>
          rw [taskTarget, hst]
          rfl
        | some st =>
          obtain ⟨⟨target, phase, htask, -⟩, -⟩ := h _ st hst
          rw [taskTarget, hst, Option.getD_some, htask, Option.bind_some, htask]
          rfl
      | write ch data =>
        exact (taskTarget_enqueue { w with agent := w.agent.insert ch data } ch _ key).trans
          (Option.or_none ..).symm
      | emit ch ev =>
        show taskTarget (step w (.emit ch ev)) key = _
        rw [step]
        split
        · exact (Option.or_none ..).symm
        · exact (taskTarget_enqueue w ch ev key).trans (Option.or_none ..).symm
      | task key' a =>
        obtain rfl : key' = key := hk
        show taskTarget (step w (.task key' a)) key' = _
        rcases step_task w h key' a with heq | ⟨st, target, phase, e, hst, hold, -, ⟨⟨phase', hnew⟩, -⟩, heq⟩
        · rw [heq]
          exact (Option.or_none ..).symm
        · rw [heq, StreamEffect.apply, taskTarget_insert, hnew, taskTarget, hst, Option.bind_some,
            hold]
          rfl
  · have hframe := (sameExcept_feed h i).channels key (fun heq => hk heq.symm)
    rw [taskTarget, hframe, subscribed_of_ne hk, Option.or_none]
    rfl

theorem taskTarget_exec {w : World} (h : InOrder w) (is : List Input) (key : String) :
    taskTarget (exec feed w is) key =
      (taskTarget w key).or (is.findSome? fun i => i.subscribed key) := by
  induction is generalizing w with
  | nil => exact (Option.or_none ..).symm
  | cons i is ih =>
    rw [exec_cons, ih (inOrder_feed h i), taskTarget_feed h, Option.or_assoc, List.findSome?_cons]
    cases i.subscribed key <;> rfl

/-! ## Isolation -/

/-- What concerns a channel: its subscriptions, its data and events, and the steps of its
task. -/
def Input.concerns (ch : ChannelRef) : Input → Bool
  | act (.subscribe ch' _) | act (.write ch' _) | act (.emit ch' _) | arrive ch' _ => ch' = ch
  | act (.task key _) => key = ch.cacheKey

/-- What is seen of a channel: the cache, the flag, and the callbacks with what they were
called with. -/
def view (w : World) (ch : ChannelRef) : Option Json × Bool × Option (List Callback) :=
  (w.cachedAggregate ch, w.isChannelSynced ch,
    (w.channels.get? ch.cacheKey).map ChannelState.callbacks)

/-- What is seen of `r₂` does not depend on what concerns `r₁`. -/
def Independent (r₁ r₂ : ChannelRef) : Prop :=
  ∀ (agent agent' : IndexMap ChannelRef Json) (is is' : List Input),
    (∀ ch, ch ≠ r₁ → agent.get? ch = agent'.get? ch) →
    is.filter (fun i => !i.concerns r₁) = is'.filter (fun i => !i.concerns r₁) →
      view (exec feed (init agent) is) r₂ = view (exec feed (init agent') is') r₂

/-- Once both are subscribed, and nothing else is, either has a task of its own. -/
def OwnTasks (r₁ r₂ : ChannelRef) : Prop :=
  ∀ (agent : IndexMap ChannelRef Json) (is : List Input),
    (∀ ch events, .act (.subscribe ch events) ∈ is → ch = r₁ ∨ ch = r₂) →
    (∃ events, .act (.subscribe r₁ events) ∈ is) → (∃ events, .act (.subscribe r₂ events) ∈ is) →
      taskTarget (exec feed (init agent) is) r₁.cacheKey = some r₁ ∧
        taskTarget (exec feed (init agent) is) r₂.cacheKey = some r₂

theorem key_of_concerns {i : Input} {ch : ChannelRef} (h : (!i.concerns ch) = false) :
    i.key = ch.cacheKey := by
  rw [Bool.not_eq_false'] at h
  cases i with
  | arrive ch' ev => exact congrArg ChannelRef.cacheKey (of_decide_eq_true h)
  | act a =>
    cases a with
    | task key a => exact of_decide_eq_true h
    | _ => exact congrArg ChannelRef.cacheKey (of_decide_eq_true h)

theorem view_eq {w w' : World} {r₁ r₂ : ChannelRef} (h : SameExcept r₁.cacheKey w w')
    (hk : r₂.cacheKey ≠ r₁.cacheKey) : view w r₂ = view w' r₂ := by
  simp only [view, World.cachedAggregate, World.isChannelSynced, h.channels _ hk,
    h.aggregates _ hk]

theorem independent_of_key_ne {r₁ r₂ : ChannelRef} (hk : r₂.cacheKey ≠ r₁.cacheKey) :
    Independent r₁ r₂ := by
  intro agent agent' is is' hagent his
  have hstart : SameExcept r₁.cacheKey (init agent) (init agent') := by
    refine ⟨fun _ _ => rfl, fun _ _ => rfl, fun ch hch => hagent ch ?_⟩
    rintro rfl
    exact hch rfl
  -- both runs are compared with the one that leaves out all about `r₁`
  have hleft := sameExcept_filter _ (fun i (h : (!i.concerns r₁) = false) => key_of_concerns h) hstart
    (inOrder_init agent) (inOrder_init agent') is
  have hright := sameExcept_filter _ (fun i (h : (!i.concerns r₁) = false) => key_of_concerns h)
    (SameExcept.refl r₁.cacheKey (init agent')) (inOrder_init agent') (inOrder_init agent') is'
  rw [his] at hleft
  exact view_eq (hleft.trans hright.symm) hk

theorem ownTask {r₁ r₂ : ChannelRef} (hk : r₂.cacheKey ≠ r₁.cacheKey)
    (agent : IndexMap ChannelRef Json) {is : List Input}
    (honly : ∀ ch events, .act (.subscribe ch events) ∈ is → ch = r₁ ∨ ch = r₂)
    (hsub : ∃ events, .act (.subscribe r₁ events) ∈ is) :
    taskTarget (exec feed (init agent) is) r₁.cacheKey = some r₁ := by
  rw [taskTarget_exec (inOrder_init agent), taskTarget, init, IndexMap.get?_empty,
    Option.bind_none, Option.map_none, Option.none_or]
  have hall : ∀ i ∈ is, ∀ ch, i.subscribed r₁.cacheKey = some ch → ch = r₁ := by
    intro i hi ch hch
    cases i with
    | arrive ch' ev => cases hch
    | act a =>
      cases a with
      | subscribe ch' events =>
        rw [Input.subscribed] at hch
        split at hch
        · rename_i hkey
          cases hch
          rcases honly ch events hi with rfl | rfl
          · rfl
          · exact absurd hkey hk
        · cases hch
      | _ => cases hch
  cases hfind : is.findSome? fun i => i.subscribed r₁.cacheKey with
  | none =>
    obtain ⟨events, hmem⟩ := hsub
    have hnone := List.findSome?_eq_none_iff.mp hfind _ hmem
    rw [Input.subscribed, if_pos rfl] at hnone
    cases hnone
  | some ch =>
    obtain ⟨i, hi, hch⟩ := List.exists_of_findSome?_eq_some hfind
    rw [hall i hi ch hch]

theorem ownTasks_of_key_ne {r₁ r₂ : ChannelRef} (hk : r₂.cacheKey ≠ r₁.cacheKey) :
    OwnTasks r₁ r₂ := by
  intro agent is honly h₁ h₂
  exact ⟨ownTask hk agent honly h₁,
    ownTask hk.symm agent (fun ch events hmem => (honly ch events hmem).symm) h₂⟩

/-- With one key there is one task. -/
theorem not_ownTasks_of_key_eq {r₁ r₂ : ChannelRef} (hne : r₁ ≠ r₂)
    (hk : r₁.cacheKey = r₂.cacheKey) : ¬ OwnTasks r₁ r₂ := by
  intro h
  have honly : ∀ ch events, .act (.subscribe ch events) ∈
      [Input.act (.subscribe r₁ .ALL), .act (.subscribe r₂ .ALL)] → ch = r₁ ∨ ch = r₂ := by
    intro ch events hmem
    simp only [List.mem_cons, Input.act.injEq, Act.subscribe.injEq, List.not_mem_nil,
      or_false] at hmem
    exact hmem.imp And.left And.left
  have hboth := h .empty _ honly ⟨.ALL, by simp⟩ ⟨.ALL, by simp⟩
  rw [← hk] at hboth
  exact hne (Option.some.inj (hboth.1.symm.trans hboth.2))

/-- Both subscribed, and the cache seeded with the data of the first. -/
def seedFirst (r₁ r₂ : ChannelRef) : List Input :=
  [.act (.subscribe r₁ .ALL), .act (.subscribe r₂ .ALL), .act (.task r₁.cacheKey .start),
    .act (.task r₁.cacheKey (.fetched true)), .act (.task r₁.cacheKey .cache)]

theorem cachedAggregate_seedFirst {r₁ r₂ : ChannelRef} (hk : r₁.cacheKey = r₂.cacheKey)
    (data : Json) :
    (exec feed (init (IndexMap.empty.insert r₁ data)) (seedFirst r₁ r₂)).cachedAggregate r₂ =
      some data := by
  simp [seedFirst, feed, step, World.subscribe, stepStream, goTo, World.cachedAggregate, init,
    ← hk, IndexMap.get?_insert_self]

theorem not_independent_of_key_eq {r₁ r₂ : ChannelRef} (hk : r₁.cacheKey = r₂.cacheKey) :
    ¬ Independent r₁ r₂ := by
  intro h
  have hview := h (IndexMap.empty.insert r₁ .null) (IndexMap.empty.insert r₁ (.bool true))
    (seedFirst r₁ r₂) (seedFirst r₁ r₂) ?_ rfl
  · have hcache := congrArg Prod.fst hview
    rw [view, view, cachedAggregate_seedFirst hk, cachedAggregate_seedFirst hk] at hcache
    cases hcache
  · intro ch hch
    exact (IndexMap.get?_insert_of_ne _ hch).trans (IndexMap.get?_insert_of_ne _ hch).symm

/-- **Isolation.**  Two channels are apart in the hub exactly when neither is an own channel
with the prefixed name of the other. -/
theorem isolated_iff {r₁ r₂ : ChannelRef} (hne : r₁ ≠ r₂) :
    Independent r₁ r₂ ∧ OwnTasks r₁ r₂ ↔ ¬ Collide r₁ r₂ := by
  rw [← cacheKey_eq_iff hne]
  constructor
  · rintro ⟨hindep, -⟩ hk
    exact not_independent_of_key_eq hk hindep
  · intro hk
    exact ⟨independent_of_key_ne fun heq => hk heq.symm, ownTasks_of_key_ne fun heq => hk heq.symm⟩

theorem isolated_iff_of_tag_values :
    Independent ⟨"tag_values", none⟩ ⟨"tag_values", some 7⟩ ∧
        OwnTasks ⟨"tag_values", none⟩ ⟨"tag_values", some 7⟩ ↔
      ¬ Collide ⟨"tag_values", none⟩ ⟨"tag_values", some 7⟩ :=
  isolated_iff (by decide)

/-- An own channel `7:tag_values` reads as `tag_values` of agent 7, and has no task. -/
theorem prefixed_name_not_isolated :
    (⟨"7:tag_values", none⟩ : ChannelRef) ≠ ⟨"tag_values", some 7⟩ ∧
      ¬ Independent ⟨"tag_values", some 7⟩ ⟨"7:tag_values", none⟩ ∧
      ¬ OwnTasks ⟨"tag_values", some 7⟩ ⟨"7:tag_values", none⟩ := by
  have hkey : (⟨"tag_values", some 7⟩ : ChannelRef).cacheKey =
      (⟨"7:tag_values", none⟩ : ChannelRef).cacheKey := by decide
  exact ⟨by decide, not_independent_of_key_eq hkey, not_ownTasks_of_key_eq (by decide) hkey⟩

end SubscriptionHub
end Doover
