import Mathlib.Data.List.Induction
import Mathlib.Logic.Function.Basic
import Doover.JsonEquality
import Doover.Merge
import Doover.ProcessorTags

/-! # Two processor invocations that overlap

Each of two invocations of one app is seeded with the aggregate as it is then, sets tags
and commits.  The commit publishes the snapshot, the keys it never set included, and the
agent merges that.

`Snapshot` is what the sets make of the seed, `lookup_publish_of_publishes` what a commit
makes of one tag, and `overlapping_commits` puts the two commits together.
-/

namespace Doover
open Json

/-- A tag set by an invocation. -/
structure TagSet where
  key : String
  value : Json
  opts : SetProcessorTagOptions

/-- The app whose tag it is. -/
def TagSet.target (appKey : String) (s : TagSet) : String := s.opts.appKey.getD appKey

/-- The value last set for a tag. -/
def lastSet (appKey : String) (sets : List TagSet) (a k : String) : Option Json :=
  sets.foldl (fun last s => if a = s.target appKey ∧ k = s.key then some s.value else last) none

/-- The tags of an invocation that was seeded, as `setup_context` does, and set some. -/
def invocation (appKey : String) (seed : Json) (sets : List TagSet) : ProcessorTags :=
  sets.foldl (fun tags s => tags.setTagWith s.key s.value s.opts) (.new appKey seed true)

/-- The agent's part of a write. -/
def TagChannelWrite.applyTo (aggregate : Json) : TagChannelWrite → Json
  | .aggregate data true => merge aggregate data
  | _ => aggregate

namespace ProcessorTags

/-- What a commit writes to the aggregate. -/
def published (tags : ProcessorTags) : Option Json :=
  if tags.updateTags then tags.aggregateUpdate else none

/-- The commit's payload reaches the tag, with a value or with something above it. -/
def Publishes (tags : ProcessorTags) (a k : String) : Prop :=
  ∃ data, tags.published = some data ∧ ¬ data.Misses [a, k]

/-- The commit of an invocation, and the aggregate after it. -/
def publish (tags : ProcessorTags) (aggregate : Json) : ProcessorTags × Json :=
  let (tags, writes, _) := tags.commitTagsWith false ⟨.ok (), .ok ()⟩
  (tags, writes.foldl TagChannelWrite.applyTo aggregate)

variable {tags : ProcessorTags}

theorem foldl_sendLog (payload : Option Json) (answers : CommitAnswers) (aggregate : Json) :
    (sendLog payload answers).1.foldl TagChannelWrite.applyTo aggregate = aggregate := by
  cases payload with
  | none => rfl
  | some data => cases ha : answers.message <;> simp only [sendLog, ha] <;> rfl

/-- A commit merges what it publishes into the aggregate. -/
theorem publish_snd (aggregate : Json) :
    (tags.publish aggregate).2 = (tags.published.map (merge aggregate)).getD aggregate := by
  rw [publish, published, commitTagsWith]
  cases hu : tags.updateTags with
  | false => rfl
  | true =>
    simp only [Bool.not_true, Bool.false_eq_true, if_false, if_true]
    cases hagg : tags.aggregateUpdate with
    | none => exact foldl_sendLog ..
    | some data => exact foldl_sendLog ..

/-- The values of a commit are the whole snapshot or the app's own part of it. -/
theorem update_cases {data : Json} (h : tags.update = some data) :
    data = .object tags.tagValues ∨
      ∃ own, tags.tagValues.get? tags.appKey = some own ∧
        data = Json.ofList [(tags.appKey, own)] := by
  rw [update] at h
  split at h
  · split at h
    · cases h
    · exact Or.inl (Option.some.inj h).symm
  · obtain ⟨own, hown, -, hdata⟩ := scopePayload_own_eq_some_iff.mp h
    exact Or.inr ⟨own, hown, hdata⟩

/-- A payload that reaches a tag has there what the snapshot has. -/
theorem lookup_update {a k : String} {data : Json} (h : tags.update = some data)
    (hm : ¬ data.Misses [a, k]) : data.lookup [a, k] = tags.getTagScoped a k := by
  rcases update_cases h with rfl | ⟨own, hown, rfl⟩
  · rw [lookup_object_cons]
    exact congrArg _ (funext fun v => lookup_singleton v k)
  · have hget := get?_ofList_singleton tags.appKey a own
    by_cases ha : a = tags.appKey
    · rw [lookup_cons, hget, if_pos ha, Option.bind_some, lookup_singleton, getTagScoped,
        TagBuffer.scoped, ha, hown, Option.bind_some]
    · refine absurd ?_ hm
      rw [if_neg ha] at hget
      refine (misses_object_cons _ a [k]).mpr fun v hv => ?_
      cases hget.symm.trans hv

/-- **One tag of a commit that reaches it.** -/
theorem lookup_publish_of_publishes {a k : String} (h : tags.Publishes a k) (aggregate : Json) :
    (tags.publish aggregate).2.lookup [a, k] =
      (tags.getTagScoped a k).map (mergeEntry (aggregate.lookup [a, k])) := by
  obtain ⟨data, hdata, hm⟩ := h
  have hupdate : tags.update = some data := by
    rw [published, aggregateUpdate] at hdata
    split at hdata
    · split at hdata
      · cases hdata
      · exact hdata
    · cases hdata
  rw [publish_snd, hdata, Option.map_some, Option.getD_some, lookup_merge_of_not_misses hm,
    lookup_update hupdate hm]

/-- **Frame.** -/
theorem lookup_publish_of_not_publishes {a k : String} (h : ¬ tags.Publishes a k)
    (aggregate : Json) :
    (tags.publish aggregate).2.lookup [a, k] = aggregate.lookup [a, k] := by
  rw [publish_snd]
  cases hdata : tags.published with
  | none => rfl
  | some data =>
    have hm : data.Misses [a, k] := by
      by_contra hm
      exact h ⟨data, hdata, hm⟩
    rw [Option.map_some, Option.getD_some]
    exact lookup_merge_of_misses hm aggregate

/-! ## What the sets make of the seed -/

/-- The tags of an invocation after `sets`, by the aggregate it was seeded with. -/
structure Snapshot (appKey : String) (seed : Json) (sets : List TagSet) (tags : ProcessorTags) :
    Prop where
  owner : tags.appKey = appKey
  /-- A tag that was not set has the seed's value. -/
  kept : ∀ a k, lastSet appKey sets a k = none → tags.getTagScoped a k = seed.lookup [a, k]
  /-- One that was reads as the value last set. -/
  reads : ∀ a k v, lastSet appKey sets a k = some v →
    beq ((tags.getTagScoped a k).getD .null) v = true
  /-- A tag that moved has a value, and the commit is to send it. -/
  moved : ∀ a k, tags.getTagScoped a k ≠ seed.lookup [a, k] →
    (∃ v, tags.getTagScoped a k = some v) ∧ tags.updateTags = true ∧ tags.dirty.isEmpty = false ∧
      (a ≠ tags.appKey → tags.updateExternalTags = true)

theorem lastSet_concat (appKey : String) (sets : List TagSet) (s : TagSet) (a k : String) :
    lastSet appKey (sets ++ [s]) a k =
      if a = s.target appKey ∧ k = s.key then some s.value else lastSet appKey sets a k := by
  rw [lastSet, List.foldl_concat]
  rfl

theorem getTagScoped_new (appKey : String) (seed : Json) (a k : String) :
    (new appKey seed true).getTagScoped a k = seed.lookup [a, k] := by
  rw [lookup_cons, funext fun v : Json => lookup_singleton v k]
  cases seed with
  | object m => rfl
  | _ => rfl

theorem snapshot_new (appKey : String) (seed : Json) :
    Snapshot appKey seed [] (new appKey seed true) where
  owner := rfl
  kept a k _ := getTagScoped_new appKey seed a k
  reads a k v h := by cases h
  moved a k h := absurd (getTagScoped_new appKey seed a k) h

/-- The tag reads as the value already. -/
theorem Snapshot.set_of_not_moves {appKey : String} {seed : Json} {sets : List TagSet}
    (h : Snapshot appKey seed sets tags) (s : TagSet)
    (hmoves : tags.moves (s.target appKey) s.key s.value = false) :
    Snapshot appKey seed (sets ++ [s]) (tags.setTagWith s.key s.value s.opts) := by
  have htarget : s.opts.appKey.getD tags.appKey = s.target appKey := by rw [h.owner]; rfl
  have hvalue : beq ((tags.getTagScoped (s.target appKey) s.key).getD .null) s.value = true := by
    rw [moves, Bool.not_eq_false'] at hmoves
    exact hmoves
  rw [← htarget] at hmoves
  obtain ⟨hvalues, hdirty, hupdate, hexternal⟩ := setTagWith_of_not_moves hmoves
  have hscoped : (tags.setTagWith s.key s.value s.opts).getTagScoped = tags.getTagScoped := by
    funext a k
    rw [getTagScoped, hvalues]
    rfl
  refine ⟨?_, ?_, ?_, ?_⟩
  · rw [setTagWith_appKey, h.owner]
  · intro a k hlast
    rw [lastSet_concat] at hlast
    rw [hscoped]
    split at hlast
    · cases hlast
    · exact h.kept a k hlast
  · intro a k v hlast
    rw [lastSet_concat] at hlast
    rw [hscoped]
    split at hlast
    · rename_i hhit
      rw [hhit.1, hhit.2, ← Option.some.inj hlast]
      exact hvalue
    · exact h.reads a k v hlast
  · intro a k hne
    rw [hscoped] at hne ⊢
    rw [hdirty, setTagWith_appKey]
    obtain ⟨hsome, hut, hd, hex⟩ := h.moved a k hne
    exact ⟨hsome, hupdate hut, hd, fun ha => hexternal (hex ha)⟩

/-- The tag reads as another value, so it is buffered and read back from there. -/
theorem Snapshot.set_of_moves {appKey : String} {seed : Json} {sets : List TagSet}
    (h : Snapshot appKey seed sets tags) (s : TagSet)
    (hmoves : tags.moves (s.target appKey) s.key s.value = true) :
    Snapshot appKey seed (sets ++ [s]) (tags.setTagWith s.key s.value s.opts) := by
  have htarget : s.opts.appKey.getD tags.appKey = s.target appKey := by rw [h.owner]; rfl
  obtain ⟨hvalues, hdirty, hupdate, hexternal⟩ := setTagWith_of_moves htarget hmoves
  have hscoped : ∀ a k, (tags.setTagWith s.key s.value s.opts).getTagScoped a k =
      if a = s.target appKey ∧ k = s.key then some s.value else tags.getTagScoped a k := by
    intro a k
    rw [getTagScoped, hvalues, scoped_insertNested]
    rfl
  refine ⟨?_, ?_, ?_, ?_⟩
  · rw [setTagWith_appKey, h.owner]
  · intro a k hlast
    rw [lastSet_concat] at hlast
    split at hlast
    · cases hlast
    · rename_i hmiss
      rw [hscoped, if_neg hmiss]
      exact h.kept a k hlast
  · intro a k v hlast
    rw [lastSet_concat] at hlast
    split at hlast
    · rename_i hhit
      rw [hscoped, if_pos hhit, ← Option.some.inj hlast]
      exact beq_refl s.value
    · rename_i hmiss
      rw [hscoped, if_neg hmiss]
      exact h.reads a k v hlast
  · intro a k hne
    have hnonempty := isEmpty_insertNested tags.dirty (s.target appKey) s.key s.value
    rw [hscoped] at hne ⊢
    rw [hdirty, setTagWith_appKey, hexternal, Bool.or_eq_true, decide_eq_true_iff]
    split at hne
    · rename_i hhit
      rw [if_pos hhit, ← hhit.1]
      exact ⟨⟨s.value, rfl⟩, hupdate, hhit.1 ▸ hnonempty, Or.inr⟩
    · rename_i hmiss
      rw [if_neg hmiss]
      obtain ⟨hsome, -, -, hex⟩ := h.moved a k hne
      exact ⟨hsome, hupdate, hnonempty, fun ha => Or.inl (hex ha)⟩

/-- **One set.** -/
theorem Snapshot.set {appKey : String} {seed : Json} {sets : List TagSet}
    (h : Snapshot appKey seed sets tags) (s : TagSet) :
    Snapshot appKey seed (sets ++ [s]) (tags.setTagWith s.key s.value s.opts) := by
  cases hmoves : tags.moves (s.target appKey) s.key s.value with
  | false => exact h.set_of_not_moves s hmoves
  | true => exact h.set_of_moves s hmoves

/-- **All of them.** -/
theorem snapshot_invocation (appKey : String) (seed : Json) (sets : List TagSet) :
    Snapshot appKey seed sets (invocation appKey seed sets) := by
  induction sets using List.reverseRecOn with
  | nil => exact snapshot_new appKey seed
  | append_singleton sets s ih =>
    rw [invocation, List.foldl_concat]
    exact ih.set s

/-- The commit sends every tag that moved. -/
theorem Snapshot.publishes {appKey : String} {seed : Json} {sets : List TagSet}
    (h : Snapshot appKey seed sets tags) {a k : String}
    (hne : tags.getTagScoped a k ≠ seed.lookup [a, k]) : tags.Publishes a k := by
  obtain ⟨⟨v, hv⟩, hupdate, hdirty, hexternal⟩ := h.moved a k hne
  obtain ⟨data, hdata, hget⟩ := update_of_scoped hv hexternal
  refine ⟨data, ?_, fun hm => ?_⟩
  · rw [published, if_pos hupdate, aggregateUpdate, hdirty, if_neg Bool.false_ne_true, hdata]
  · have hlookup := hm.lookup
    rw [lookup_cons, funext fun v : Json => lookup_singleton v k] at hlookup
    cases hget.symm.trans hlookup

end ProcessorTags

/-! ## What a commit makes of a tag -/

/-- What a tag that had `start` holds after `set` is merged in; without either, nothing. -/
def mergedValue (start set : Option Json) : Option Json := (set.map (mergeEntry start)).or start

theorem mergedValue_self (start : Option Json) : mergedValue start start = start := by
  cases start with
  | none => rfl
  | some v => rw [mergedValue, Option.map_some, mergeEntry_some, merge_self, Option.some_or]

/-- A tag that had `start` and was set to `v` holds `now`: the value, up to `==`, merged into
the one it had where both are objects.  A missing tag set to null stays missing. -/
def Holds (start : Option Json) (v : Json) (now : Option Json) : Prop :=
  ∃ set, beq (set.getD .null) v = true ∧ (set = none → start = none) ∧
    now = mergedValue start set

/-- Unless both are objects, the tag reads as the value it was set to. -/
theorem Holds.reads {start now : Option Json} {v : Json} (h : Holds start v now)
    (hleaf : v.isObject = false ∨ (start.getD .null).isObject = false) :
    beq (now.getD .null) v = true := by
  obtain ⟨set, hset, hnone, rfl⟩ := h
  cases set with
  | none =>
    rw [hnone rfl]
    exact hset
  | some w =>
    rw [mergedValue, Option.map_some, Option.some_or]
    cases start with
    | none => exact hset
    | some s =>
      have hw : s.isObject = false ∨ w.isObject = false := by
        rw [← isObject_eq_of_beq hset] at hleaf
        exact hleaf.symm
      rw [mergeEntry_some, merge_of_not_object hw]
      exact hset

namespace ProcessorTags.Snapshot
variable {appKey : String} {seed : Json} {sets : List TagSet} {tags : ProcessorTags}
  {a k : String}

/-- A commit onto what the invocation was seeded with merges the tag's value in. -/
theorem lookup_publish (h : Snapshot appKey seed sets tags) {aggregate : Json}
    (hseed : aggregate.lookup [a, k] = seed.lookup [a, k]) :
    (tags.publish aggregate).2.lookup [a, k] =
      mergedValue (seed.lookup [a, k]) (tags.getTagScoped a k) := by
  by_cases hp : tags.Publishes a k
  · -- a tag without a value is one that did not move
    rw [lookup_publish_of_publishes hp, hseed, mergedValue]
    by_cases hne : tags.getTagScoped a k = seed.lookup [a, k]
    · rw [hne]
      cases seed.lookup [a, k] <;> rfl
    · obtain ⟨⟨v, hv⟩, -⟩ := h.moved a k hne
      rw [hv, Option.map_some, Option.some_or]
  · have hsame : tags.getTagScoped a k = seed.lookup [a, k] := by
      by_contra hne
      exact hp (h.publishes hne)
    rw [lookup_publish_of_not_publishes hp, hseed, hsame, mergedValue_self]

/-- A tag the invocation set holds the value, merged into what it was seeded with. -/
theorem holds (h : Snapshot appKey seed sets tags) {v : Json}
    (hset : lastSet appKey sets a k = some v) {aggregate : Json}
    (hseed : aggregate.lookup [a, k] = seed.lookup [a, k]) :
    Holds (seed.lookup [a, k]) v ((tags.publish aggregate).2.lookup [a, k]) := by
  refine ⟨_, h.reads a k v hset, fun hnone => ?_, h.lookup_publish hseed⟩
  by_contra hne
  obtain ⟨⟨w, hw⟩, -⟩ := h.moved a k (hnone ▸ Ne.symm hne)
  cases hnone.symm.trans hw

/-- A tag the invocation did not set stays as it was seeded. -/
theorem lookup_publish_of_kept (h : Snapshot appKey seed sets tags)
    (hkept : lastSet appKey sets a k = none) {aggregate : Json}
    (hseed : aggregate.lookup [a, k] = seed.lookup [a, k]) :
    (tags.publish aggregate).2.lookup [a, k] = seed.lookup [a, k] := by
  rw [h.lookup_publish hseed, h.kept a k hkept, mergedValue_self]

end ProcessorTags.Snapshot

/-! ## Two invocations -/

/-- `s` has the steps of `l` and of `r`, those of each in their order. -/
inductive Interleaves {α : Type} : List α → List α → List α → Prop where
  | nil : Interleaves [] [] []
  | left {x l r s} : Interleaves l r s → Interleaves (x :: l) r (x :: s)
  | right {x l r s} : Interleaves l r s → Interleaves l (x :: r) (x :: s)

namespace Interleaves
variable {α : Type} {l r s : List α}

theorem of_nil_left (h : Interleaves [] r s) : s = r := by
  generalize hl : [] = l at h
  induction h with
  | nil => rfl
  | left _ _ => cases hl
  | right _ ih => rw [ih hl]

theorem of_nil_right (h : Interleaves l [] s) : s = l := by
  generalize hr : [] = r at h
  induction h with
  | nil => rfl
  | left _ ih => rw [ih hr]
  | right _ _ => cases hr

/-- Two lists of two interleave in six ways. -/
theorem pairs {w x y z : α} (h : Interleaves [w, x] [y, z] s) :
    s = [w, x, y, z] ∨ s = [y, z, w, x] ∨ (s = [w, y, x, z] ∨ s = [y, w, x, z]) ∨
      (s = [w, y, z, x] ∨ s = [y, w, z, x]) := by
  cases h with
  | left h =>
    cases h with
    | left h => exact Or.inl (by rw [h.of_nil_left])
    | right h =>
      cases h with
      | left h => exact Or.inr (Or.inr (Or.inl (Or.inl (by rw [h.of_nil_left]))))
      | right h => exact Or.inr (Or.inr (Or.inr (Or.inl (by rw [h.of_nil_right]))))
  | right h =>
    cases h with
    | left h =>
      cases h with
      | left h => exact Or.inr (Or.inr (Or.inl (Or.inr (by rw [h.of_nil_left]))))
      | right h => exact Or.inr (Or.inr (Or.inr (Or.inr (by rw [h.of_nil_right]))))
    | right h => exact Or.inr (Or.inl (by rw [h.of_nil_right]))

end Interleaves

namespace ProcessorOverlap

inductive Party where
  | one
  | two
deriving DecidableEq

def Party.other : Party → Party
  | .one => .two
  | .two => .one

inductive Action where
  /-- The invocation starts, and sets its tags. -/
  | seed (p : Party)
  | commit (p : Party)
deriving DecidableEq

/-- The two actions of an invocation. -/
def life (p : Party) : List Action := [.seed p, .commit p]

structure State where
  aggregate : Json
  tags : Party → Option ProcessorTags

variable (appKey : String) (sets : Party → List TagSet)

def State.act (st : State) : Action → State
  -- the sets touch the invocation's own snapshot only, so they are made at once
  | .seed p => { st with
      tags := Function.update st.tags p (some (invocation appKey st.aggregate (sets p))) }
  | .commit p =>
    match st.tags p with
    -- not started
    | none => st
    | some tags =>
      let (tags, aggregate) := tags.publish st.aggregate
      ⟨aggregate, Function.update st.tags p (some tags)⟩

/-- The aggregate after a schedule of the two invocations. -/
def final (start : Json) (schedule : List Action) : Json :=
  (schedule.foldl (State.act appKey sets) ⟨start, fun _ => none⟩).aggregate

/-- The aggregate after the commit of `p`, seeded with `seed`. -/
def committed (p : Party) (seed aggregate : Json) : Json :=
  ((invocation appKey seed (sets p)).publish aggregate).2

/-- The other invocation starts before `p` commits, and commits after it. -/
def CommitsOver (p : Party) (schedule : List Action) : Prop :=
  [.seed p.other, .commit p, .commit p.other].Sublist schedule

instance (p : Party) (schedule : List Action) : Decidable (CommitsOver p schedule) :=
  inferInstanceAs (Decidable (List.Sublist _ _))

variable {appKey sets}

/-- The schedules, as either invocation sees them. -/
theorem schedule_cases {schedule : List Action}
    (h : Interleaves (life .one) (life .two) schedule) (p : Party) :
    schedule = [.seed p, .commit p, .seed p.other, .commit p.other] ∨
      schedule = [.seed p.other, .commit p.other, .seed p, .commit p] ∨
      (schedule = [.seed p, .seed p.other, .commit p, .commit p.other] ∨
        schedule = [.seed p.other, .seed p, .commit p, .commit p.other]) ∨
      (schedule = [.seed p, .seed p.other, .commit p.other, .commit p] ∨
        schedule = [.seed p.other, .seed p, .commit p.other, .commit p]) := by
  cases p with
  | one => exact h.pairs
  | two =>
    obtain h | h | (h | h) | h | h := h.pairs
    · exact Or.inr (Or.inl h)
    · exact Or.inl h
    · exact Or.inr (Or.inr (Or.inr (Or.inr h)))
    · exact Or.inr (Or.inr (Or.inr (Or.inl h)))
    · exact Or.inr (Or.inr (Or.inl (Or.inr h)))
    · exact Or.inr (Or.inr (Or.inl (Or.inl h)))

/-- **The schedules.**  Unless the other commits over `p`, one of the two commits right onto
what it was seeded with and the other's commit leaves that alone. -/
theorem final_cases (appKey : String) (sets : Party → List TagSet) (start : Json)
    {schedule : List Action} (h : Interleaves (life .one) (life .two) schedule) (p : Party) :
    (CommitsOver p schedule ∧ final appKey sets start schedule =
      committed appKey sets p.other start (committed appKey sets p start start)) ∨
    (¬ CommitsOver p schedule ∧ final appKey sets start schedule =
      (let aggregate := committed appKey sets p start start
       committed appKey sets p.other aggregate aggregate)) ∨
    ¬ CommitsOver p schedule ∧
      ∃ seed, (seed = start ∨ seed = committed appKey sets p.other start start) ∧
        final appKey sets start schedule =
          committed appKey sets p seed (committed appKey sets p.other start start) := by
  obtain rfl | rfl | (rfl | rfl) | rfl | rfl := schedule_cases h p
  -- `p` before the other, the other before `p`, then `p`'s commit first, then last
  · refine Or.inr (Or.inl ⟨?_, ?_⟩)
    · cases p <;> decide
    · cases p <;> rfl
  · refine Or.inr (Or.inr ⟨?_, _, Or.inr rfl, ?_⟩)
    · cases p <;> decide
    · cases p <;> rfl
  · refine Or.inl ⟨?_, ?_⟩
    · cases p <;> decide
    · cases p <;> rfl
  · refine Or.inl ⟨?_, ?_⟩
    · cases p <;> decide
    · cases p <;> rfl
  · refine Or.inr (Or.inr ⟨?_, _, Or.inl rfl, ?_⟩)
    · cases p <;> decide
    · cases p <;> rfl
  · refine Or.inr (Or.inr ⟨?_, _, Or.inl rfl, ?_⟩)
    · cases p <;> decide
    · cases p <;> rfl

/-- The other invocation, seeded at the start, writes the tag again in a commit that comes
after `p`'s. -/
def Undone (appKey : String) (sets : Party → List TagSet) (start : Json) (schedule : List Action)
    (p : Party) (a k : String) : Prop :=
  CommitsOver p schedule ∧ (invocation appKey start (sets p.other)).Publishes a k

/-- A tag that an invocation did not set keeps its value through its commit. -/
theorem lookup_committed_of_kept {p : Party} {seed : Json} {a k : String}
    (hkept : lastSet appKey (sets p) a k = none) :
    (committed appKey sets p seed seed).lookup [a, k] = seed.lookup [a, k] :=
  (ProcessorTags.snapshot_invocation ..).lookup_publish_of_kept hkept rfl

/-- **What two overlapping invocations leave of a tag.** -/
theorem overlapping_commits (start : Json) {schedule : List Action}
    (hdisjoint : ∀ a k, lastSet appKey (sets .one) a k = none ∨
      lastSet appKey (sets .two) a k = none)
    (hschedule : Interleaves (life .one) (life .two) schedule) (a k : String) :
    ((∀ p, lastSet appKey (sets p) a k = none) →
      (final appKey sets start schedule).lookup [a, k] = start.lookup [a, k]) ∧
    ∀ p v, lastSet appKey (sets p) a k = some v →
      (¬ Undone appKey sets start schedule p a k →
        Holds (start.lookup [a, k]) v ((final appKey sets start schedule).lookup [a, k])) ∧
      (Undone appKey sets start schedule p a k →
        ∃ set, Holds (start.lookup [a, k]) v set ∧
          (final appKey sets start schedule).lookup [a, k] =
            (start.lookup [a, k]).map (mergeEntry set)) := by
  have hsnap := fun p seed => ProcessorTags.snapshot_invocation appKey seed (sets p)
  constructor
  · intro hkept
    have hkeep : ∀ p (seed : Json),
        (committed appKey sets p seed seed).lookup [a, k] = seed.lookup [a, k] :=
      fun p seed => lookup_committed_of_kept (hkept p)
    obtain ⟨-, h⟩ | ⟨-, h⟩ | ⟨-, seed, hseed, h⟩ := final_cases appKey sets start hschedule .one
    · rw [h]
      exact (hsnap ..).lookup_publish_of_kept (hkept _) (hkeep ..)
    · rw [h, hkeep, hkeep]
    · have hsame : seed.lookup [a, k] = start.lookup [a, k] := by
        rcases hseed with rfl | rfl
        · rfl
        · exact hkeep ..
      rw [h, ← hsame]
      exact (hsnap ..).lookup_publish_of_kept (hkept _) ((hkeep ..).trans hsame.symm)
  · intro p v hset
    have hkept : lastSet appKey (sets p.other) a k = none := by
      cases p with
      | one => exact (hdisjoint a k).resolve_left (by rw [hset]; exact Option.some_ne_none v)
      | two => exact (hdisjoint a k).resolve_right (by rw [hset]; exact Option.some_ne_none v)
    have hkeep : ∀ seed : Json,
        (committed appKey sets p.other seed seed).lookup [a, k] = seed.lookup [a, k] :=
      fun seed => lookup_committed_of_kept hkept
    have hown : Holds (start.lookup [a, k]) v
        ((committed appKey sets p start start).lookup [a, k]) :=
      (hsnap p start).holds hset rfl
    obtain ⟨hover, h⟩ | ⟨hover, h⟩ | ⟨hover, seed, hseed, h⟩ := final_cases appKey sets start
      hschedule p
    · -- the other is seeded with the start too, and commits over `p`
      constructor
      · intro hundone
        have hp : ¬ (invocation appKey start (sets p.other)).Publishes a k :=
          fun hp => hundone ⟨hover, hp⟩
        rw [h, committed, ProcessorTags.lookup_publish_of_not_publishes hp]
        exact hown
      · rintro ⟨-, hp⟩
        refine ⟨_, hown, ?_⟩
        rw [h, committed, ProcessorTags.lookup_publish_of_publishes hp,
          (hsnap p.other start).kept a k hkept]
    · -- the other starts from what `p` left
      refine ⟨fun _ => ?_, fun hundone => absurd hundone.1 hover⟩
      rw [h, hkeep]
      exact hown
    · -- the other's commit, done before `p`'s, leaves the tag alone
      refine ⟨fun _ => ?_, fun hundone => absurd hundone.1 hover⟩
      have hsame : seed.lookup [a, k] = start.lookup [a, k] := by
        rcases hseed with rfl | rfl
        · rfl
        · exact hkeep ..
      rw [h, ← hsame]
      exact (hsnap p seed).holds hset ((hkeep start).trans hsame.symm)

/-- One invocation of the pump app sets one tag, the other the other. -/
def pumpSets : Party → List TagSet
  | .one => [⟨"on", .bool true, ⟨none, false⟩⟩]
  | .two => [⟨"fault", .bool true, ⟨none, false⟩⟩]

/-- Neither tag is set at the start. -/
def pumpStart : Json :=
  Json.ofList [("pump", Json.ofList [("on", .bool false), ("fault", .bool false)])]

theorem pumpSets_disjoint (a k : String) :
    lastSet "pump" (pumpSets .one) a k = none ∨ lastSet "pump" (pumpSets .two) a k = none := by
  by_cases hk : k = "on"
  · subst hk
    exact Or.inr (if_neg fun h => absurd h.2 (by decide))
  · exact Or.inl (if_neg fun h => hk h.2)

/-- The second commit takes the first one's tag back. -/
theorem commit_undone :
    let schedule : List Action := [.seed .one, .seed .two, .commit .one, .commit .two]
    Interleaves (life .one) (life .two) schedule ∧
      (∀ a k, lastSet "pump" (pumpSets .one) a k = none ∨
        lastSet "pump" (pumpSets .two) a k = none) ∧
      lastSet "pump" (pumpSets .one) "pump" "on" = some (.bool true) ∧
      (final "pump" pumpSets pumpStart schedule).lookup ["pump", "on"] = some (.bool false) :=
  ⟨.left (.right (.left (.right .nil))), pumpSets_disjoint, rfl, rfl⟩

/-- The later commit keeps its own tag and takes the other one back. -/
theorem overlapping_commits_pump :
    let schedule : List Action := [.seed .one, .seed .two, .commit .one, .commit .two]
    let after := final "pump" pumpSets pumpStart schedule
    Holds (some (.bool false)) (.bool true) (after.lookup ["pump", "fault"]) ∧
      ∃ set, Holds (some (.bool false)) (.bool true) set ∧
        after.lookup ["pump", "on"] = some (mergeEntry set (.bool false)) := by
  intro schedule after
  have hschedule : Interleaves (life .one) (life .two) schedule :=
    .left (.right (.left (.right .nil)))
  constructor
  · have hfault := overlapping_commits pumpStart pumpSets_disjoint hschedule "pump" "fault"
    refine (hfault.2 .two (.bool true) rfl).1 fun hundone => ?_
    exact absurd hundone.1 (by decide)
  · -- the second was seeded before the first committed, and moved a tag of the same app
    have hon := overlapping_commits pumpStart pumpSets_disjoint hschedule "pump" "on"
    refine (hon.2 .one (.bool true) rfl).2 ⟨by decide, _, rfl, fun hmisses => ?_⟩
    cases hmisses

end ProcessorOverlap
end Doover
