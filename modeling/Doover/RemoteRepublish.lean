import Doover.BufferedWrites
import Doover.GrowingDiffs
import Doover.NoOpWrites
import Doover.RemoteTags
import Doover.StepRuns

/-! # Republished tags

`republish_locally` subscribes to a tag of another app and sets a tag of its own to what the
subscription is told.  Each call spawns a task of its own to do so, so between an update and
its task others may come, and the tasks run in any order.

What the local tag will read as, once the tasks have run in the order they were spawned, is
the upstream value all along (`Tracks`), as long as

* the upstream tag is not removed and its objects only grow, so that the diff says all of its
  change;
* the updates leave the local tag alone, or a task is going to overwrite it;
* no task overtakes another, unless both are to be overwritten;
* nothing the local tag once held comes back when an object is set.
-/

namespace Doover
open Json

/-! ## Full values -/

/-- What holds the values of a full write meets its objects. -/
theorem HoldsAll.meetsObjects {cur tags : Json} (h : HoldsAll cur tags) (hfull : Full tags) :
    MeetsObjects cur tags := by
  intro p o ho
  obtain ⟨q, v, hv⟩ := (hfull.lookup ho).exists_valueAt
  obtain ⟨c, hc, -⟩ := holds_iff.mp (h (p ++ q) v ((valueAt_append ho q).trans hv))
  rw [lookup_append] at hc
  obtain ⟨w, hw, hwc⟩ := Option.bind_eq_some_iff.mp hc
  cases q with
  | nil => exact absurd rfl (ne_nil_of_valueAt hv)
  | cons k q =>
    obtain ⟨r, rfl⟩ := exists_of_isObject (isObject_of_lookup_cons hwc)
    exact ⟨r, hw⟩

/-! ## Republishing -/

namespace RemoteTag
variable {T : Type} [TagValue T]

/-- Subscribe, and seed the local tag with the current value; the set is buffered, so it
succeeds. -/
def republishLocally (tag : RemoteTag T) (st : TagsState) (ownKey localName : String)
    (callback : TagCallback) : TagsState × Option T :=
  let st := st.subscribeToTag tag.appKey tag.tagName callback
  let current := tag.get st
  match st.getTag tag.appKey tag.tagName with
  | some .null | none => (st, current)
  | some v => ((st.setTag ownKey localName v .default).1, current)

end RemoteTag

namespace RemoteRepublish
open StepRuns

/-- Whose tag is republished, and under which name. -/
structure Mirror where
  appKey : String
  tagName : String
  ownKey : String
  localName : String

namespace Mirror

def source (m : Mirror) : KeyPath := KeyPath.mkScoped m.appKey [m.tagName]

def target (m : Mirror) : KeyPath := KeyPath.mkScoped m.ownKey [m.localName]

end Mirror

/-- The tag manager and the spawned tasks that have not run, each with the value it will
set, the oldest first. -/
structure World where
  st : TagsState
  tasks : List Json

inductive Act where
  | update (ev : Event)
  | run (i : ℕ)

/-- An update spawns a task for each call of the subscription that brings a value. -/
def step (m : Mirror) (w : World) : Act → World
  | .update ev =>
    ⟨(w.st.onTagUpdate ev).1, w.tasks ++ (w.st.callsOf ev m.source).filterMap Prod.snd⟩
  | .run i =>
    match w.tasks[i]? with
    | some v => ⟨(w.st.setTag m.ownKey m.localName v .default).1, w.tasks.eraseIdx i⟩
    | none => w

/-- The aggregate of an update. -/
def Act.aggregate : Act → Option Json
  | .update ev => ev.aggregateData
  | .run _ => none

/-- The aggregate of the last update, or what was cached before. -/
def lastAggregate (cached : Json) (acts : List Act) : Json :=
  acts.foldl (fun cached a => a.aggregate.getD cached) cached

/-! ## Absent and null -/

/-- What is read, a `null` being read as nothing. -/
def present : Option Json → Option Json
  | some .null => none
  | x => x

/-- Equal for Python, or nothing both. -/
def SameTag (x y : Option Json) : Prop := RelEq (present x) (present y)

theorem SameTag.of_relEq {x y : Option Json} (h : RelEq x y) : SameTag x y := by
  cases h with
  | none => exact .none
  | @some v w heq =>
    cases v with
    | null =>
      rw [eq_null_of_pythonJsonEq heq]
      exact .none
    | _ =>
      cases w with
      | null => cases eq_null_of_pythonJsonEq (pythonJsonEq_symm heq)
      | _ => exact .some heq

theorem present_eq_some {x : Option Json} {v : Json} (h : present x = some v) : x = some v := by
  cases x with
  | none => cases h
  | some w =>
    cases w with
    | null => cases h
    | _ => exact h

/-- All values that are read are in `V`. -/
def ReadsIn (V : Json → Prop) (x : Option Json) : Prop := ∀ v, x = some v → ValuesIn V v

theorem SameTag.trans {V : Json → Prop} (hV : TransitiveOn V) {x y z : Option Json}
    (hx : ReadsIn V x) (hz : ReadsIn V z) (hxy : SameTag x y) (hyz : SameTag y z) :
    SameTag x z := by
  have hx' : ReadsIn V (present x) := fun v hv => hx v (present_eq_some hv)
  have hz' : ReadsIn V (present z) := fun v hv => hz v (present_eq_some hv)
  rw [SameTag] at hxy hyz ⊢
  generalize present x = x at hxy hx'
  generalize present y = y at hxy hyz
  generalize present z = z at hyz hz'
  cases hxy with
  | none => exact hyz
  | some hab =>
    cases hyz with
    | some hbc => exact .some (pythonJsonEq_trans hV (hx' _ rfl) (hz' _ rfl) hab hbc)

/-- A diff over nothing is a diff over `null`. -/
theorem applyEntry_present (d : Json) (x : Option Json) :
    applyEntry false d (present x) = applyEntry false d x := by
  cases x with
  | none => rfl
  | some v =>
    cases v with
    | null =>
      rw [present, applyEntry_none, applyEntry_some]
      cases d <;> rfl
    | _ => rfl

theorem SameTag.applyEntry {x y : Option Json} (h : SameTag x y) (d : Json) :
    RelEq (applyEntry false d x) (applyEntry false d y) := by
  rw [← applyEntry_present d x, ← applyEntry_present d y]
  exact rel_applyEntry d h

/-! ## What the tasks will do -/

/-- What a tag reads as after these sets. -/
def replay (tasks : List Json) (x : Option Json) : Option Json :=
  tasks.foldl (fun x d => applyEntry false d x) x

@[simp] theorem replay_nil (x : Option Json) : replay [] x = x := rfl

@[simp] theorem replay_cons (d : Json) (tasks : List Json) (x : Option Json) :
    replay (d :: tasks) x = replay tasks (applyEntry false d x) := rfl

@[simp] theorem replay_append (ts ts' : List Json) (x : Option Json) :
    replay (ts ++ ts') x = replay ts' (replay ts x) := List.foldl_append ..

theorem SameTag.replay {x y : Option Json} (h : SameTag x y) (tasks : List Json) :
    SameTag (replay tasks x) (replay tasks y) := by
  induction tasks generalizing x y with
  | nil => exact h
  | cons d tasks ih => exact ih (.of_relEq (h.applyEntry d))

/-- Before a set to something other than an object, anything may be. -/
theorem replay_overwritten {tasks : List Json} {v : Json} (hv : v ∈ tasks)
    (hleaf : v.isObject = false) (x y : Option Json) : replay tasks x = replay tasks y := by
  induction tasks generalizing x y with
  | nil => cases hv
  | cons d tasks ih =>
    rw [replay_cons, replay_cons]
    rcases List.mem_cons.mp hv with rfl | hv
    · cases v with
      | object o => cases hleaf
      | _ => rfl
    · exact ih hv _ _

section Values
variable {V : Json → Prop}

theorem ReadsIn.applyEntry {d : Json} {x : Option Json} (hx : ReadsIn V x) (hd : ValuesIn V d) :
    ReadsIn V (applyEntry false d x) := by
  intro v hv p w hw
  cases x with
  | none =>
    rw [applyEntry_none, Option.some.injEq] at hv
    exact hd p w (hv ▸ hw)
  | some c =>
    rw [applyEntry_some, Option.some.injEq] at hv
    rw [← hv, valueAt_applyDiff] at hw
    rcases afterWrite_eq_some.mp hw with hw | ⟨-, hw⟩
    · exact hd p w hw
    · exact hx c rfl p w hw

theorem ReadsIn.replay {tasks : List Json} {x : Option Json} (hx : ReadsIn V x)
    (h : ∀ d ∈ tasks, ValuesIn V d) : ReadsIn V (replay tasks x) := by
  induction tasks generalizing x with
  | nil => exact hx
  | cons d tasks ih =>
    exact ih (hx.applyEntry (h d List.mem_cons_self)) fun d hd => h d (List.mem_cons_of_mem _ hd)

/-- The values below a path are in `V`. -/
def ValuesBelow (V : Json → Prop) (j : Json) (p : List String) : Prop :=
  ∀ q v, j.valueAt (p ++ q) = some v → V v

theorem ValuesBelow.readsIn {j : Json} {p : List String} (h : ValuesBelow V j p) :
    ReadsIn V (j.lookup p) := by
  intro v hv q x hx
  exact h q x ((valueAt_append hv q).trans hx)

theorem ReadsIn.valuesBelow {j : Json} {p : List String} (h : ReadsIn V (j.lookup p)) :
    ValuesBelow V j p := by
  intro q v hv
  obtain ⟨hl, hleaf⟩ := valueAt_eq_some.mp hv
  rw [lookup_append] at hl
  obtain ⟨w, hw, hwv⟩ := Option.bind_eq_some_iff.mp hl
  exact h w hw q v (valueAt_eq_some.mpr ⟨hwv, hleaf⟩)

theorem readsIn_none : ReadsIn V none := by
  intro v hv
  cases hv

theorem readsIn_leaf {v : Json} (hleaf : v.isObject = false) (hv : V v) : ReadsIn V (some v) := by
  intro w hw p x hx
  rw [← Option.some.inj hw] at hx
  obtain ⟨-, rfl⟩ := (valueAt_leaf hleaf).mp hx
  exact hv

theorem ValuesBelow.applyDiff {a b : Json} {p : List String} (ha : ValuesBelow V a p)
    (hb : ValuesBelow V b p) : ValuesBelow V (applyDiff a b false) p := by
  intro q v hv
  rw [valueAt_applyDiff] at hv
  rcases afterWrite_eq_some.mp hv with hv | ⟨-, hv⟩
  · exact hb q v hv
  · exact ha q v hv

theorem valuesBelow_construct {d : Json} (hd : ValuesIn V d) (kp : KeyPath) :
    ValuesBelow V (kp.construct d) kp.path := by
  intro q v hv
  rw [valueAt_append (KeyPath.lookup_construct kp.path d)] at hv
  exact hd q v hv

end Values

/-! ## One task -/

section Task
variable (st : TagsState) (appKey key : String) (v : Json)

theorem setTag_stores :
    (st.setTag appKey key v .default).1.tagValues = st.tagValues ∧
      (st.setTag appKey key v .default).1.subscriptions = st.subscriptions ∧
      (st.setTag appKey key v .default).1.pendingAggregate =
        if st.suppresses ((KeyPath.mkScoped appKey [key]).construct v) .default then
          st.pendingAggregate
        else applyDiff st.pendingAggregate ((KeyPath.mkScoped appKey [key]).construct v) false := by
  obtain ⟨ts, hts⟩ := st.evaluateLogTriggers_eq (KeyPath.mkScoped appKey [key]) v
  unfold TagsState.setTag
  simp only
  rw [hts]
  refine ⟨TagsState.setNestedTags_tagValues .., ?_, TagsState.setNestedTags_pendingAggregate ..⟩
  unfold TagsState.setNestedTags
  split
  · rfl
  · cases (SetTagOptions.default.log || (st.evaluateLogTriggers _ v).2) <;> rfl

/-- **What a set makes of its tag**, when it is not just empty objects that it would add and,
if it sets an object, nothing comes back that a pending write hides. -/
theorem relEq_getTag_setTag
    (hkept : HoldsAll st.current ((KeyPath.mkScoped appKey [key]).construct v) →
      MeetsObjects st.current ((KeyPath.mkScoped appKey [key]).construct v))
    (hres : v.isObject = true → NothingResurfaces st.tagValues
      [st.pendingAggregate, (KeyPath.mkScoped appKey [key]).construct v]) :
    RelEq ((st.setTag appKey key v .default).1.getTag appKey key)
      (applyEntry false v (st.getTag appKey key)) := by
  obtain ⟨hvalues, -, hpending⟩ := setTag_stores st appKey key v
  have hp := KeyPath.mkScoped_path_ne_nil appKey key
  have hleaf := KeyPath.lookup_construct (KeyPath.mkScoped appKey [key]).path v
  have hview : (applyDiff st.current ((KeyPath.mkScoped appKey [key]).construct v) false).lookup
      (KeyPath.mkScoped appKey [key]).path = applyEntry false v (st.getTag appKey key) :=
    lookup_applyDiff_some hleaf st.current
  rw [TagsState.getTag, TagsState.current, hvalues, hpending, KeyPath.lookup]
  cases hsup : st.suppresses ((KeyPath.mkScoped appKey [key]).construct v) .default with
  | true =>
    -- the set changes nothing
    rw [if_pos rfl, ← hview]
    obtain ⟨t, ht⟩ := exists_of_isObject (KeyPath.isObject_construct hp v)
    change KeyPath.construct (KeyPath.mkScoped appKey [key]) v = .object t at ht
    rw [TagsState.suppresses, SetTagOptions.default, Bool.true_and, ht,
      isEmptyObject_generateDiff_iff] at hsup
    rw [ht] at hkept ⊢
    have hsame := (pythonJsonEq_applyDiff_self_iff _ _).mpr ⟨hsup.1, hkept hsup.1⟩
    exact RelEq.symm (rel_lookup_of_pythonJsonEq hsame _)
  | false =>
    rw [if_neg Bool.false_ne_true]
    by_cases hobj : v.isObject = true
    · have hbeq := (beq_applyDiff_payload_iff st.tagValues (.inl (List.cons_ne_nil _ _))).mpr
        (hres hobj)
      have hpayload : payload [st.pendingAggregate,
          (KeyPath.mkScoped appKey [key]).construct v] = applyDiff st.pendingAggregate
            ((KeyPath.mkScoped appKey [key]).construct v) false := by
        rw [payload, applyAll_cons, emptyObject, applyDiff_empty]
        rfl
      rw [hpayload] at hbeq
      rw [← hview]
      exact rel_lookup_of_pythonJsonEq (pythonJsonEq_of_beq hbeq) _
    · rw [Bool.not_eq_true] at hobj
      rw [lookup_applyDiff_leaf (lookup_applyDiff_leaf hleaf hobj (.inl rfl) _) hobj (.inl rfl)]
      cases v with
      | object o => cases hobj
      | _ => exact relEq_refl _

theorem valuesBelow_setTag {V : Json → Prop} (hv : ValuesIn V v)
    (h : ValuesBelow V st.pendingAggregate (KeyPath.mkScoped appKey [key]).path) :
    ValuesBelow V (st.setTag appKey key v .default).1.pendingAggregate
      (KeyPath.mkScoped appKey [key]).path := by
  rw [(setTag_stores st appKey key v).2.2]
  split
  · exact h
  · exact h.applyDiff (valuesBelow_construct hv _)

theorem readsIn_setTag {V : Json → Prop} (hv : ValuesIn V v)
    (hcached : ValuesBelow V st.tagValues (KeyPath.mkScoped appKey [key]).path)
    (hpending : ValuesBelow V st.pendingAggregate (KeyPath.mkScoped appKey [key]).path) :
    ReadsIn V ((st.setTag appKey key v .default).1.getTag appKey key) := by
  rw [← (setTag_stores st appKey key v).1] at hcached
  exact (hcached.applyDiff (valuesBelow_setTag st appKey key v hv hpending)).readsIn

end Task

/-! ## The conditions on a step -/

/-- An update that can be followed. -/
structure Followed (V : Json → Prop) (m : Mirror) (w : World) (new : Json) : Prop where
  /-- The upstream tag is not removed. -/
  stays : new.lookup m.source.path = none →
    present (w.st.tagValues.lookup m.source.path) = none
  /-- No object of it loses a key, and no empty object is new. -/
  grows : ∀ v, new.lookup m.source.path = some v →
    KeepsKeys ((w.st.tagValues.lookup m.source.path).getD (.object .empty)) v ∧
      AddsNoEmpty (w.st.tagValues.lookup m.source.path) v
  /-- Under the pending writes the local tag reads the same, or a task is going to overwrite
  it, this update's own one perhaps. -/
  aside : SameTag ((applyDiff new w.st.pendingAggregate false).lookup m.target.path)
      ((applyDiff w.st.tagValues w.st.pendingAggregate false).lookup m.target.path) ∨
    (∃ d ∈ w.tasks, d.isObject = false) ∨
    ∃ d, (generateDiff w.st.tagValues new false).valueAt m.source.path = some d
  sourceValues : ValuesBelow V new m.source.path
  targetValues : ValuesBelow V new m.target.path

/-- A task that may run. -/
structure Runnable (m : Mirror) (w : World) (i : ℕ) (v : Json) : Prop where
  /-- It is the oldest, or a newer one sets something other than an object. -/
  inOrder : i = 0 ∨ ∃ d ∈ w.tasks.drop (i + 1), d.isObject = false
  resurfaces : v.isObject = true →
    NothingResurfaces w.st.tagValues [w.st.pendingAggregate, m.target.construct v]

/-- The condition on a step, by the state before it. -/
def Meets (V : Json → Prop) (m : Mirror) (w : World) : Act → Prop
  | .update ev => ∀ new, ev.aggregateData = some new → Followed V m w new
  | .run i => ∀ v, w.tasks[i]? = some v → Runnable m w i v

/-- What the local tag will read as, once the tasks have run in their order, is the upstream
value. -/
structure Tracks (V : Json → Prop) (m : Mirror) (w : World) : Prop where
  subscribed : ∃ callback, w.st.subscriptions.filter (fun s => s.1 = m.source) =
    [(m.source, callback)]
  sourceValues : ValuesBelow V w.st.tagValues m.source.path
  targetValues : ValuesBelow V w.st.tagValues m.target.path
  pendingValues : ValuesBelow V w.st.pendingAggregate m.target.path
  tasks : ∀ d ∈ w.tasks, ValuesIn V d ∧ Full d
  outcome : SameTag (replay w.tasks (w.st.getTag m.ownKey m.localName))
    (w.st.tagValues.lookup m.source.path)

section Steps
variable {V : Json → Prop} {m : Mirror} {w : World}

/-- What the tasks there are will make of the local tag of an aggregate. -/
theorem Tracks.readsIn_replay (h : Tracks V m w) {new : Json}
    (hnew : ValuesBelow V new m.target.path) :
    ReadsIn V (replay w.tasks
      ((applyDiff new w.st.pendingAggregate false).lookup m.target.path)) :=
  (hnew.applyDiff h.pendingValues).readsIn.replay fun d hd => (h.tasks d hd).1

/-- What the diff has at the upstream path makes of the old value the new one. -/
theorem Followed.told {new d : Json} (h : Followed V m w new)
    (hd : (generateDiff w.st.tagValues new false).lookup m.source.path = some d) :
    ValuesIn V d ∧ Full d ∧ RelEq (applyEntry false d (w.st.tagValues.lookup m.source.path))
      (new.lookup m.source.path) := by
  by_cases hb : w.st.tagValues.Blocks m.source.path
  · rw [lookup_generateDiff_of_blocks hb] at hd
    obtain ⟨-, hno⟩ := h.grows d hd
    rw [lookup_of_blocks hb] at hno ⊢
    refine ⟨h.sourceValues.readsIn d hd, hno.full_of_none, ?_⟩
    rw [applyEntry_none, hd]
    exact relEq_refl _
  · rw [lookup_generateDiff hb (KeyPath.mkScoped_path_ne_nil m.appKey m.tagName)] at hd
    obtain ⟨u, hu, hentry⟩ := Option.bind_eq_some_iff.mp hd
    obtain ⟨hkeeps, hno⟩ := h.grows u hu
    refine ⟨valuesIn_diffEntry (h.sourceValues.readsIn u hu) hentry, full_diffEntry hno hentry, ?_⟩
    rw [hu]
    exact (rel_diffEntry hkeeps hno).1 d hentry

/-- When it has nothing there, the value is the old one. -/
theorem Followed.untold {new : Json} (h : Followed V m w new)
    (hd : (generateDiff w.st.tagValues new false).lookup m.source.path = none) :
    SameTag (w.st.tagValues.lookup m.source.path) (new.lookup m.source.path) := by
  by_cases hb : w.st.tagValues.Blocks m.source.path
  · rw [lookup_generateDiff_of_blocks hb] at hd
    rw [lookup_of_blocks hb, hd]
    exact .of_relEq .none
  · rw [lookup_generateDiff hb (KeyPath.mkScoped_path_ne_nil m.appKey m.tagName)] at hd
    cases hu : new.lookup m.source.path with
    | none =>
      rw [SameTag, h.stays hu]
      exact .none
    | some u =>
      rw [hu, Option.bind_some] at hd
      obtain ⟨hkeeps, hno⟩ := h.grows u hu
      exact .of_relEq ((rel_diffEntry hkeeps hno).2 hd)

/-- What an update spawns: the part of the diff at the upstream path. -/
theorem step_update (h : Tracks V m w) {ev : Event} {new : Json}
    (hev : ev.aggregateData = some new) :
    step m w (.update ev) = ⟨{ w.st with tagValues := new }, w.tasks ++
      ((generateDiff w.st.tagValues new false).lookup m.source.path).toList⟩ := by
  obtain ⟨cb, hone⟩ := h.subscribed
  have hp : m.source.path ≠ [] := KeyPath.mkScoped_path_ne_nil m.appKey m.tagName
  have hst : (w.st.onTagUpdate ev).1 = { w.st with tagValues := new } := by
    rw [TagsState.onTagUpdate, hev]
    simp only
    split <;> rfl
  rw [step, hst, TagsState.callsOf_eq hev hone hp]
  cases (generateDiff w.st.tagValues new false).lookup m.source.path <;> rfl

/-- The tasks there were still lead to the old upstream value, unless the new one is going to
overwrite what they do. -/
theorem Tracks.replay_aside (hV : TransitiveOn V) (h : Tracks V m w) {new : Json}
    (hf : Followed V m w new) :
    SameTag (replay w.tasks
        ((applyDiff new w.st.pendingAggregate false).lookup m.target.path))
      (w.st.tagValues.lookup m.source.path) ∨
    ∃ d, (generateDiff w.st.tagValues new false).valueAt m.source.path = some d := by
  rcases hf.aside with hsame | ⟨d, hd, hleaf⟩ | hover
  · left
    exact SameTag.trans hV (h.readsIn_replay hf.targetValues) h.sourceValues.readsIn
      (hsame.replay w.tasks) h.outcome
  · left
    rw [replay_overwritten hd hleaf _ (w.st.getTag m.ownKey m.localName)]
    exact h.outcome
  · right
    exact hover

/-- **An update.**  What it spawns makes of the old upstream value the new one, so it does
of what the local tag will read as. -/
theorem Tracks.update (hV : TransitiveOn V) (h : Tracks V m w) {ev : Event} {new : Json}
    (hev : ev.aggregateData = some new) (hf : Followed V m w new) :
    Tracks V m (step m w (.update ev)) := by
  have hold := h.replay_aside hV hf
  have hxin := h.readsIn_replay hf.targetValues
  rw [step_update h hev]
  refine ⟨h.subscribed, hf.sourceValues, hf.targetValues, h.pendingValues, fun d hd => ?_, ?_⟩
  · rcases List.mem_append.mp hd with hd | hd
    · exact h.tasks d hd
    · have htold := hf.told (Option.mem_toList.mp hd)
      exact ⟨htold.1, htold.2.1⟩
  · show SameTag (replay (w.tasks ++ _)
      ((applyDiff new w.st.pendingAggregate false).lookup m.target.path))
      (new.lookup m.source.path)
    rw [replay_append]
    generalize replay w.tasks ((applyDiff new w.st.pendingAggregate false).lookup m.target.path)
      = x at hold hxin
    cases hd : (generateDiff w.st.tagValues new false).lookup m.source.path with
    | none =>
      rcases hold with hold | ⟨d, hover⟩
      · exact SameTag.trans hV hxin hf.sourceValues.readsIn hold (hf.untold hd)
      · rw [(valueAt_eq_some.mp hover).1] at hd
        cases hd
    | some d =>
      obtain ⟨hdin, -, hrel⟩ := hf.told hd
      rcases hold with hold | ⟨v, hover⟩
      · exact SameTag.trans hV (hxin.applyEntry hdin) hf.sourceValues.readsIn
          (.of_relEq (hold.applyEntry d)) (.of_relEq hrel)
      · -- the task's value is all that is left
        obtain ⟨hv, hleaf⟩ := valueAt_eq_some.mp hover
        rw [hd, Option.some.injEq] at hv
        rw [hv]
        rw [hv] at hrel
        exact .of_relEq ((replay_overwritten (List.mem_singleton_self v) hleaf x _).symm ▸ hrel)

/-- **A task.**  What is set is what the replay says, and running before the older ones
makes no difference where a newer one overwrites them all. -/
theorem Tracks.run (hV : TransitiveOn V) (h : Tracks V m w) {i : ℕ} {v : Json}
    (hv : w.tasks[i]? = some v) (hr : Runnable m w i v) : Tracks V m (step m w (.run i)) := by
  obtain ⟨hi, hget⟩ := List.getElem?_eq_some_iff.mp hv
  have htasks : w.tasks = w.tasks.take i ++ v :: w.tasks.drop (i + 1) := by
    rw [← hget, ← List.drop_eq_getElem_cons hi, List.take_append_drop]
  have hvin := h.tasks v (hget ▸ List.getElem_mem hi)
  have hstep : step m w (.run i) =
      ⟨(w.st.setTag m.ownKey m.localName v .default).1, w.tasks.eraseIdx i⟩ := by
    rw [step, hv]
  obtain ⟨hcache, hsubs, -⟩ := setTag_stores w.st m.ownKey m.localName v
  have hset := relEq_getTag_setTag w.st m.ownKey m.localName v
    (fun hall => hall.meetsObjects (full_construct hvin.2 _)) hr.resurfaces
  have hpending := valuesBelow_setTag w.st m.ownKey m.localName v hvin.1 h.pendingValues
  rw [hstep, List.eraseIdx_eq_take_drop_succ]
  have hrest : ∀ d ∈ w.tasks.take i ++ w.tasks.drop (i + 1), ValuesIn V d ∧ Full d := by
    intro d hd
    refine h.tasks d ?_
    rcases List.mem_append.mp hd with hd | hd
    · exact List.mem_of_mem_take hd
    · exact List.mem_of_mem_drop hd
  refine ⟨?_, ?_, ?_, hpending, hrest, ?_⟩
  · rw [hsubs]
    exact h.subscribed
  · rw [hcache]
    exact h.sourceValues
  · rw [hcache]
    exact h.targetValues
  · show SameTag (replay (w.tasks.take i ++ w.tasks.drop (i + 1)) _) _
    have houtcome := h.outcome
    rw [htasks] at houtcome
    rw [hcache]
    have hreads := readsIn_setTag w.st m.ownKey m.localName v hvin.1 h.targetValues h.pendingValues
    generalize (w.st.setTag m.ownKey m.localName v .default).1.getTag m.ownKey m.localName = y
      at hset hreads
    rcases hr.inOrder with rfl | ⟨d, hd, hleaf⟩
    · -- the oldest task
      exact SameTag.trans hV (hreads.replay fun d hd => (hrest d hd).1) h.sourceValues.readsIn
        ((SameTag.of_relEq hset).replay _) houtcome
    · rw [replay_append] at houtcome ⊢
      rw [replay_cons] at houtcome
      rw [replay_overwritten hd hleaf _ _]
      exact houtcome

end Steps

/-! ## Runs -/

/-- What `republish_locally` leaves, when it returned `Ok`; nothing is spawned yet. -/
def start {T : Type} [TagValue T] (tag : RemoteTag T) (st : TagsState) (ownKey localName : String)
    (callback : TagCallback) : World :=
  ⟨(tag.republishLocally st ownKey localName callback).1, []⟩

/-- The seed makes the local tag the upstream one. -/
structure Seeds (V : Json → Prop) (m : Mirror) (st : TagsState) : Prop where
  /-- What is read of the upstream tag is what the aggregate has. -/
  unwritten : SameTag (st.getTag m.appKey m.tagName) (st.tagValues.lookup m.source.path)
  /-- When it is nothing, so is the local tag. -/
  stays : present (st.getTag m.appKey m.tagName) = none →
    present (st.getTag m.ownKey m.localName) = none
  /-- Its objects have the keys of those of the local tag. -/
  grows : ∀ v, present (st.getTag m.appKey m.tagName) = some v →
    KeepsKeys ((st.getTag m.ownKey m.localName).getD (.object .empty)) v
  /-- Where all its values are there already, so are its objects. -/
  kept : ∀ v, present (st.getTag m.appKey m.tagName) = some v →
    HoldsAll st.current (m.target.construct v) → MeetsObjects st.current (m.target.construct v)
  resurfaces : ∀ v, present (st.getTag m.appKey m.tagName) = some v → v.isObject = true →
    NothingResurfaces st.tagValues [st.pendingAggregate, m.target.construct v]
  readValues : ReadsIn V (st.getTag m.appKey m.tagName)
  sourceValues : ValuesBelow V st.tagValues m.source.path
  targetValues : ValuesBelow V st.tagValues m.target.path
  pendingValues : ValuesBelow V st.pendingAggregate m.target.path

theorem filter_subscribeToTag (st : TagsState) (appKey key : String) (cb : TagCallback) :
    (st.subscribeToTag appKey key cb).subscriptions.filter
      (fun s => s.1 = KeyPath.mkScoped appKey [key]) = [(KeyPath.mkScoped appKey [key], cb)] := by
  rw [TagsState.subscribeToTag, List.filter_append, List.filter_filter,
    List.filter_eq_nil_iff.mpr, List.nil_append]
  · exact List.filter_cons_of_pos (by exact decide_eq_true rfl)
  · intro s _ hboth
    rw [Bool.and_eq_true, decide_eq_true_iff, decide_eq_true_iff] at hboth
    exact hboth.2 hboth.1

section Start
variable {T : Type} [TagValue T] (tag : RemoteTag T) (st : TagsState) (ownKey localName : String)
  (cb : TagCallback)

theorem republishLocally_of_absent (h : present (st.getTag tag.appKey tag.tagName) = none) :
    (tag.republishLocally st ownKey localName cb).1 =
      st.subscribeToTag tag.appKey tag.tagName cb := by
  have hget : (st.subscribeToTag tag.appKey tag.tagName cb).getTag tag.appKey tag.tagName =
    st.getTag tag.appKey tag.tagName := rfl
  rw [RemoteTag.republishLocally, hget]
  cases hx : st.getTag tag.appKey tag.tagName with
  | none => rfl
  | some v =>
    rw [hx] at h
    cases v with
    | null => rfl
    | _ => cases h

theorem republishLocally_of_present {v : Json}
    (h : present (st.getTag tag.appKey tag.tagName) = some v) :
    (tag.republishLocally st ownKey localName cb).1 =
      ((st.subscribeToTag tag.appKey tag.tagName cb).setTag ownKey localName v .default).1 := by
  have hget : (st.subscribeToTag tag.appKey tag.tagName cb).getTag tag.appKey tag.tagName =
    st.getTag tag.appKey tag.tagName := rfl
  have hv := present_eq_some h
  rw [RemoteTag.republishLocally, hget, hv]
  cases v with
  | null =>
    rw [hv] at h
    cases h
  | _ => rfl

/-- **The seed.** -/
theorem tracks_start {V : Json → Prop} (hV : TransitiveOn V)
    (h : Seeds V ⟨tag.appKey, tag.tagName, ownKey, localName⟩ st) :
    Tracks V ⟨tag.appKey, tag.tagName, ownKey, localName⟩
      (start tag st ownKey localName cb) := by
  have hsub := filter_subscribeToTag st tag.appKey tag.tagName cb
  cases hx : present (st.getTag tag.appKey tag.tagName) with
  | none =>
    rw [start, republishLocally_of_absent tag st ownKey localName cb hx]
    refine ⟨⟨cb, hsub⟩, h.sourceValues, h.targetValues, h.pendingValues, fun d hd => ?_, ?_⟩
    · cases hd
    · have hsource := h.unwritten
      rw [SameTag, hx] at hsource
      have hlocal : present (st.getTag ownKey localName) = none := h.stays hx
      show SameTag (st.getTag ownKey localName) _
      rw [SameTag, hlocal]
      exact hsource
  | some v =>
    have hgot := present_eq_some hx
    have hvin : ValuesIn V v := h.readValues v hgot
    rw [start, republishLocally_of_present tag st ownKey localName cb hx]
    generalize hst : st.subscribeToTag tag.appKey tag.tagName cb = st' at hsub
    have hvalues : st'.tagValues = st.tagValues := hst ▸ rfl
    have hpend : st'.pendingAggregate = st.pendingAggregate := hst ▸ rfl
    have hcur : st'.current = st.current := hst ▸ rfl
    have hlocal : st'.getTag ownKey localName = st.getTag ownKey localName := hst ▸ rfl
    obtain ⟨hcache, hsubs, -⟩ := setTag_stores st' ownKey localName v
    have hpending := valuesBelow_setTag st' ownKey localName v hvin (hpend ▸ h.pendingValues)
    have hset := relEq_getTag_setTag st' ownKey localName v (hcur ▸ h.kept v hx)
      (hvalues ▸ hpend ▸ h.resurfaces v hx)
    rw [hlocal] at hset
    rw [hvalues] at hcache
    have hreads := readsIn_setTag st' ownKey localName v hvin (hvalues ▸ h.targetValues)
      (hpend ▸ h.pendingValues)
    refine ⟨⟨cb, hsubs.symm ▸ hsub⟩, ?_, ?_, hpending, fun d hd => ?_, ?_⟩
    · show ValuesBelow V (st'.setTag ownKey localName v .default).1.tagValues _
      rw [hcache]
      exact h.sourceValues
    · show ValuesBelow V (st'.setTag ownKey localName v .default).1.tagValues _
      rw [hcache]
      exact h.targetValues
    · cases hd
    · show SameTag ((st'.setTag ownKey localName v .default).1.getTag ownKey localName)
        ((st'.setTag ownKey localName v .default).1.tagValues.lookup _)
      rw [hcache]
      -- the set makes of the local tag the value that was read
      have hseeded := rel_applyEntry_self (h.grows v hx)
      have hread := h.unwritten
      rw [hgot] at hread
      have hlocals : ReadsIn V (st.getTag ownKey localName) :=
        (h.targetValues.applyDiff h.pendingValues).readsIn
      exact SameTag.trans hV hreads h.sourceValues.readsIn (.of_relEq hset)
        (SameTag.trans hV (hlocals.applyEntry hvin) h.sourceValues.readsIn (.of_relEq hseeded) hread)

end Start

/-- An event without an aggregate is passed over. -/
theorem step_update_of_none (m : Mirror) (w : World) {ev : Event} (hev : ev.aggregateData = none) :
    step m w (.update ev) = w := by
  have hupdate : w.st.onTagUpdate ev = (w.st, []) := by
    rw [TagsState.onTagUpdate, hev]
  rw [step, TagsState.callsOf, hupdate]
  simp only [List.filter_nil, List.map_nil, List.filterMap_nil, List.append_nil]

theorem step_run_of_none {m : Mirror} {w : World} {i : ℕ} (hi : w.tasks[i]? = none) :
    step m w (.run i) = w := by
  rw [step, hi]

/-- **Runs.**  Steps that meet the conditions keep the local tag on its way. -/
theorem tracks_exec {V : Json → Prop} (hV : TransitiveOn V) {m : Mirror} {w : World}
    (h0 : Tracks V m w) (acts : List Act) (h : AllSteps (step m) (Meets V m) w acts) :
    Tracks V m (exec (step m) w acts) := by
  induction acts generalizing w with
  | nil => exact h0
  | cons a acts ih =>
    obtain ⟨hmeets, hrest⟩ := h
    refine ih ?_ hrest
    cases a with
    | update ev =>
      cases hev : ev.aggregateData with
      | none =>
        rw [step_update_of_none m w hev]
        exact h0
      | some new => exact h0.update hV hev (hmeets new hev)
    | run i =>
      cases hi : w.tasks[i]? with
      | none =>
        rw [step_run_of_none hi]
        exact h0
      | some v => exact h0.run hV hi (hmeets v hi)

theorem tagValues_step (m : Mirror) (w : World) (a : Act) :
    (step m w a).st.tagValues = a.aggregate.getD w.st.tagValues := by
  cases a with
  | update ev =>
    cases hev : ev.aggregateData with
    | none =>
      rw [step_update_of_none m w hev, Act.aggregate, hev]
      rfl
    | some new =>
      rw [step, Act.aggregate, hev, TagsState.onTagUpdate, hev]
      simp only
      split <;> rfl
  | run i =>
    cases hi : w.tasks[i]? with
    | none =>
      rw [step_run_of_none hi]
      rfl
    | some v =>
      rw [step, hi]
      exact (setTag_stores w.st m.ownKey m.localName v).1

/-- The cache has the aggregate of the last update. -/
theorem tagValues_exec (m : Mirror) (w : World) (acts : List Act) :
    (exec (step m) w acts).st.tagValues = lastAggregate w.st.tagValues acts := by
  induction acts generalizing w with
  | nil => rfl
  | cons a acts ih =>
    rw [exec_cons, ih, tagValues_step]
    rfl

theorem tagValues_start {T : Type} [TagValue T] (tag : RemoteTag T) (st : TagsState)
    (ownKey localName : String) (cb : TagCallback) :
    (start tag st ownKey localName cb).st.tagValues = st.tagValues := by
  rw [start]
  cases hx : present (st.getTag tag.appKey tag.tagName) with
  | none =>
    rw [republishLocally_of_absent tag st ownKey localName cb hx]
    rfl
  | some v =>
    rw [republishLocally_of_present tag st ownKey localName cb hx]
    exact (setTag_stores _ ownKey localName v).1

/-- **A republished tag catches up.**  When the seed and every step meet their conditions and
no task is left, the local tag reads as the upstream one does in the last update. -/
theorem republished_converges {V : Json → Prop} (hV : TransitiveOn V) {T : Type} [TagValue T]
    (tag : RemoteTag T) (st : TagsState) (ownKey localName : String) (cb : TagCallback)
    (hseed : Seeds V ⟨tag.appKey, tag.tagName, ownKey, localName⟩ st) (acts : List Act)
    (hmeets : AllSteps (step ⟨tag.appKey, tag.tagName, ownKey, localName⟩)
      (Meets V ⟨tag.appKey, tag.tagName, ownKey, localName⟩)
      (start tag st ownKey localName cb) acts)
    (hdone : (exec (step ⟨tag.appKey, tag.tagName, ownKey, localName⟩)
      (start tag st ownKey localName cb) acts).tasks = []) :
    SameTag
      ((exec (step ⟨tag.appKey, tag.tagName, ownKey, localName⟩)
        (start tag st ownKey localName cb) acts).st.getTag ownKey localName)
      ((lastAggregate st.tagValues acts).lookup
        (KeyPath.mkScoped tag.appKey [tag.tagName]).path) := by
  have h := tracks_exec hV (tracks_start tag st ownKey localName cb hV hseed) acts hmeets
  have houtcome := h.outcome
  rw [hdone, replay_nil, tagValues_exec, tagValues_start] at houtcome
  exact houtcome

/-! ## A mode -/

/-- The aggregate of an app whose mode this is. -/
def modeOf (mode : String) : Json := .ofList [("pump", .ofList [("mode", .string mode)])]

def tagUpdate (new : Json) : Event :=
  ⟨Event.AGGREGATE_UPDATE, "tag_values", .ofList [("aggregate", .ofList [("data", new)])]⟩

/-- Python's equality is transitive on strings. -/
theorem transitiveOn_strings : TransitiveOn fun v => ∃ s, v = .string s := by
  rintro x y z ⟨s, rfl⟩ - hxy hyz
  cases y with
  | string t =>
    obtain rfl : s = t := by simpa [pythonJsonEq] using hxy
    exact hyz
  | _ => cases hxy

/-- A mode that changes once, and the local tag with it. -/
theorem republished_converges_mode :
    let tag : RemoteTag Json := ⟨"pump", "mode", none⟩
    let m : Mirror := ⟨"pump", "mode", "app", "pump_mode"⟩
    let st := { TagsState.default with tagValues := modeOf "off" }
    let acts := [Act.update (tagUpdate (modeOf "on")), .run 0]
    (exec (step m) (start tag st "app" "pump_mode" 0) acts).tasks = [] ∧
      SameTag ((exec (step m) (start tag st "app" "pump_mode" 0) acts).st.getTag "app" "pump_mode")
        ((lastAggregate st.tagValues acts).lookup (KeyPath.mkScoped "pump" ["mode"]).path) := by
  intro tag m st acts
  have hdone : (exec (step m) (start tag st "app" "pump_mode" 0) acts).tasks = [] := by rfl
  have hstrings : ∀ mode : String,
      ReadsIn (fun v => ∃ s, v = Json.string s) (some (.string mode)) :=
    fun mode => readsIn_leaf rfl ⟨mode, rfl⟩
  have hread : st.getTag "pump" "mode" = some (.string "off") := by rfl
  have hmode : ∀ v, present (st.getTag "pump" "mode") = some v → v.isObject = false := by
    intro v hv
    rw [hread] at hv
    cases hv
    rfl
  have hseed : Seeds (fun v => ∃ s, v = .string s) m st := by
    constructor
    · exact .of_relEq (relEq_refl (some (.string "off")))
    · intro hnone
      rw [hread] at hnone
      cases hnone
    · exact fun v hv => keepsKeys_of_not_isObject (hmode v hv) _
    · intro v hv hall
      exact hall.meetsObjects (full_construct (full_of_not_isObject (hmode v hv)) _)
    · intro v hv hobj
      rw [hmode v hv] at hobj
      cases hobj
    · rw [hread]
      exact hstrings "off"
    · exact ReadsIn.valuesBelow (hstrings "off")
    · exact ReadsIn.valuesBelow readsIn_none
    · exact ReadsIn.valuesBelow readsIn_none
  have hmeets : AllSteps (step m) (Meets (fun v => ∃ s, v = .string s) m)
      (start tag st "app" "pump_mode" 0) acts := by
    refine ⟨fun new hnew => ?_, fun v hv => ?_, trivial⟩
    · cases hnew
      constructor
      · intro hnone
        cases hnone
      · intro v hv
        cases hv
        exact ⟨keepsKeys_of_not_isObject rfl _, (full_of_not_isObject rfl).addsNoEmpty _⟩
      · exact .inr (.inr ⟨.string "on", by rfl⟩)
      · exact ReadsIn.valuesBelow (hstrings "on")
      · exact ReadsIn.valuesBelow readsIn_none
    · cases hv
      refine ⟨.inl rfl, fun hobj => ?_⟩
      cases hobj
  exact ⟨hdone, republished_converges transitiveOn_strings tag st "app" "pump_mode" 0 hseed acts
    hmeets hdone⟩

/-- An upstream tag that is removed leaves the local one as it was. -/
theorem removal_not_republished :
    ¬ ∀ (tag : RemoteTag Json) (st : TagsState) (ownKey localName : String) (cb : TagCallback)
        (acts : List Act),
      (exec (step ⟨tag.appKey, tag.tagName, ownKey, localName⟩)
        (start tag st ownKey localName cb) acts).tasks = [] →
      SameTag
        ((exec (step ⟨tag.appKey, tag.tagName, ownKey, localName⟩)
          (start tag st ownKey localName cb) acts).st.getTag ownKey localName)
        ((lastAggregate st.tagValues acts).lookup
          (KeyPath.mkScoped tag.appKey [tag.tagName]).path) := by
  intro h
  have hsame := h ⟨"pump", "mode", none⟩ { TagsState.default with tagValues := modeOf "off" }
    "app" "pump_mode" 0 [.update (tagUpdate (.ofList [("pump", .object .empty)]))] (by rfl)
  have hlocal : (exec (step ⟨"pump", "mode", "app", "pump_mode"⟩)
      (start (⟨"pump", "mode", none⟩ : RemoteTag Json)
        { TagsState.default with tagValues := modeOf "off" } "app" "pump_mode" 0)
      [.update (tagUpdate (.ofList [("pump", .object .empty)]))]).st.getTag "app" "pump_mode" =
        some (.string "off") := by rfl
  have hsource : (lastAggregate (modeOf "off")
      [.update (tagUpdate (.ofList [("pump", .object .empty)]))]).lookup
        (KeyPath.mkScoped "pump" ["mode"]).path = none := by rfl
  rw [hlocal, hsource] at hsame
  cases hsame

end RemoteRepublish
end Doover
