import Doover.LiveTags
import Doover.StripPaths
import Doover.TagsSettled
import Doover.TagsWire

/-! # The keys of a payload

Before anything is written, its payload is checked: it has to be an object, and each of its
keys, however deep and also inside arrays, a word.  The check stops at the first key that is
none, in the order of the document (`validatePayload_eq`).

What the manager of the tags sends is put together from many writes, some of which were
taken out again, and from what the agent has sent.  It holds no key that was not in one of
them, so nothing is refused when each write would have been accepted by itself
(`payloads_valid`).  The points of `log_history` are sent as they are given, and are not among
the writes here.
-/

namespace Doover
open Json

/-! ## The check -/

/-- The bytes of any other character are no letters, digits, `_` or `-` either. -/
def isKeyChar (c : Char) : Bool := c.isAlphanum || c == '_' || c == '-'

def isKey (k : String) : Bool := !k.isEmpty && k.toList.all isKeyChar

/-- Why a payload is refused. -/
inductive InvalidPayload where
  | root
  | key (k : String)
  | nestedKey (k : String)
deriving DecidableEq

/-- The text of the error, keys being quoted by `debug`. -/
def InvalidPayload.message (debug : String → String) : InvalidPayload → String
  | root => "payload root must be an object"
  | key k => "invalid key: " ++ debug k
  | nestedKey k => "invalid nested key: " ++ debug k

mutual
def validateValue : Json → Except InvalidPayload Unit
  | .null | .bool _ | .number _ | .string _ => .ok ()
  | .array items => validateItems items
  | .object ⟨keys, _, vals⟩ => keys.attach.forM fun k => do
    if !isKey k.1 then .error (.nestedKey k.1)
    validateValue (vals k)
/-- The items of an array. -/
def validateItems : List Json → Except InvalidPayload Unit
  | [] => .ok ()
  | v :: items => do
    validateValue v
    validateItems items
end

def validatePayload (data : Json) : Except InvalidPayload Unit :=
  match data with
  | .object ⟨keys, _, vals⟩ => keys.attach.forM fun k => do
    if !isKey k.1 then .error (.key k.1)
    validateValue (vals k)
  | _ => .error .root

/-! ## What it finds -/

mutual
/-- The keys in a value that are no words, in the order of the document. -/
def faults : Json → List String
  | .null | .bool _ | .number _ | .string _ => []
  | .array items => itemFaults items
  | .object ⟨keys, _, vals⟩ => keys.attach.flatMap fun k =>
    (if isKey k.1 then [] else [k.1]) ++ faults (vals k)
/-- Those in the items of an array. -/
def itemFaults : List Json → List String
  | [] => []
  | v :: items => faults v ++ itemFaults items
end

/-- All there is to say against a payload, in the order of the document. -/
def payloadFaults : Json → List InvalidPayload
  | .object ⟨keys, _, vals⟩ => keys.attach.flatMap fun k =>
    (if isKey k.1 then [] else [.key k.1]) ++ (faults (vals k)).map .nestedKey
  | _ => [.root]

/-- Fail with the first of these, if there is one. -/
def failFirst {E : Type} (l : List E) : Except E Unit := l.head?.elim (.ok ()) .error

section FailFirst
variable {E : Type}

theorem failFirst_eq_ok_iff {l : List E} : failFirst l = .ok () ↔ l = [] := by
  cases l with
  | nil => exact ⟨fun _ => rfl, fun _ => rfl⟩
  | cons e l =>
    constructor
    · intro h
      cases h
    · intro h
      cases h

theorem failFirst_append (l l' : List E) :
    (do failFirst l; failFirst l') = failFirst (l ++ l') := by
  cases l <;> rfl

/-- A loop whose rounds fail with the first of some faults fails with the first of all. -/
theorem forM_failFirst {α : Type} (l : List α) {f : α → Except E Unit} {g : α → List E}
    (h : ∀ a ∈ l, f a = failFirst (g a)) : l.forM f = failFirst (l.flatMap g) := by
  induction l with
  | nil => rfl
  | cons a l ih =>
    show (do f a; l.forM f) = _
    rw [h a List.mem_cons_self, ih fun b hb => h b (List.mem_cons_of_mem a hb), List.flatMap_cons]
    exact failFirst_append (g a) (l.flatMap g)

end FailFirst

/-- One round of the loop over the entries of an object. -/
theorem round_eq {k : String} {e : InvalidPayload} {x : Except InvalidPayload Unit}
    {l : List InvalidPayload} (h : x = failFirst l) :
    (do if !isKey k then Except.error e
        x) = failFirst ((if isKey k then [] else [e]) ++ l) := by
  cases isKey k with
  | true => exact h
  | false => rfl

theorem validateValue_eq (v : Json) : validateValue v = failFirst ((faults v).map .nestedKey) := by
  induction v with
  | array items ih =>
    rw [validateValue, faults]
    induction items with
    | nil => rfl
    | cons v items ihs =>
      rw [validateItems, itemFaults, List.map_append, ← failFirst_append,
        ← ih v List.mem_cons_self, ← ihs fun i hi => ih i (List.mem_cons_of_mem v hi)]
  | object fields ih =>
    obtain ⟨keys, nodup, vals⟩ := fields
    rw [validateValue, faults, List.map_flatMap]
    refine forM_failFirst _ fun k _ => ?_
    rw [List.map_append, apply_ite (List.map _)]
    exact round_eq (ih k.1 (vals k) (IndexMap.get?_of_mem k.2))
  | _ => rfl

/-- **The check fails with the first fault of the document.** -/
theorem validatePayload_eq (data : Json) : validatePayload data = failFirst (payloadFaults data) := by
  cases data with
  | object fields =>
    obtain ⟨keys, nodup, vals⟩ := fields
    exact forM_failFirst _ fun k _ => round_eq (validateValue_eq (vals k))
  | _ => rfl

/-! ## Values whose keys are words -/

/-- The values whose keys, wherever they are, all satisfy `P`. -/
inductive EveryKey (P : String → Prop) : Json → Prop
  | null : EveryKey P .null
  | bool (b : Bool) : EveryKey P (.bool b)
  | number (n : Number) : EveryKey P (.number n)
  | string (s : String) : EveryKey P (.string s)
  | array {items : List Json} (h : ∀ v ∈ items, EveryKey P v) : EveryKey P (.array items)
  | object {fields : IndexMap String Json} (hkeys : ∀ k v, fields.get? k = some v → P k)
    (h : ∀ k v, fields.get? k = some v → EveryKey P v) : EveryKey P (.object fields)

theorem everyKey_object_iff {P : String → Prop} {fields : IndexMap String Json} :
    EveryKey P (.object fields) ↔ ∀ k v, fields.get? k = some v → P k ∧ EveryKey P v := by
  constructor
  · rintro (_ | _ | _ | _ | _ | ⟨hkeys, h⟩) k v hv
    exact ⟨hkeys k v hv, h k v hv⟩
  · exact fun h => .object (fun k v hv => (h k v hv).1) fun k v hv => (h k v hv).2

theorem mem_itemFaults {items : List Json} {k : String} :
    k ∈ itemFaults items ↔ ∃ v ∈ items, k ∈ faults v := by
  induction items with
  | nil => simp [itemFaults]
  | cons v items ih => simp [itemFaults, ih]

theorem faults_eq_nil_iff {v : Json} : faults v = [] ↔ EveryKey (isKey · = true) v := by
  induction v with
  | array items ih =>
    have hmem : faults (.array items) = [] ↔ ∀ v ∈ items, faults v = [] := by
      rw [faults, List.eq_nil_iff_forall_not_mem]
      simp only [mem_itemFaults, List.eq_nil_iff_forall_not_mem]
      grind
    rw [hmem]
    constructor
    · exact fun h => .array fun v hv => (ih v hv).mp (h v hv)
    · rintro (_ | _ | _ | _ | h) v hv
      exact (ih v hv).mpr (h v hv)
  | object fields ih =>
    obtain ⟨keys, nodup, vals⟩ := fields
    rw [faults, List.flatMap_eq_nil_iff, everyKey_object_iff]
    constructor
    · intro h k v hv
      obtain ⟨hk, rfl⟩ := IndexMap.get?_eq_some_iff.mp hv
      obtain ⟨hword, hfaults⟩ := List.append_eq_nil_iff.mp (h ⟨k, hk⟩ (List.mem_attach ..))
      refine ⟨?_, (ih k _ hv).mp hfaults⟩
      by_contra hno
      rw [if_neg hno] at hword
      cases hword
    · intro h k _
      have hget := IndexMap.get?_of_mem (m := ⟨keys, nodup, vals⟩) k.2
      obtain ⟨hword, hv⟩ := h k.1 _ hget
      rw [if_pos hword, (ih k.1 _ hget).mpr hv]
      rfl
  | null => exact ⟨fun _ => .null, fun _ => rfl⟩
  | bool b => exact ⟨fun _ => .bool b, fun _ => rfl⟩
  | number n => exact ⟨fun _ => .number n, fun _ => rfl⟩
  | string s => exact ⟨fun _ => .string s, fun _ => rfl⟩

theorem payloadFaults_eq_nil_iff {data : Json} :
    payloadFaults data = [] ↔ data.isObject = true ∧ EveryKey (isKey · = true) data := by
  cases data with
  | object fields =>
    have hobj : (Json.object fields).isObject = true := rfl
    rw [← faults_eq_nil_iff, hobj, faults, payloadFaults, List.flatMap_eq_nil_iff,
      List.flatMap_eq_nil_iff, eq_self, true_and]
    refine forall₂_congr fun k _ => ?_
    rw [List.append_eq_nil_iff, List.append_eq_nil_iff, List.map_eq_nil_iff]
    cases isKey k.1 <;> simp
  | _ =>
    constructor
    · intro h
      cases h
    · rintro ⟨h, -⟩
      cases h

/-- **What is accepted**: the objects all of whose keys are words. -/
theorem validatePayload_ok_iff {data : Json} :
    validatePayload data = .ok () ↔ data.isObject = true ∧ EveryKey (isKey · = true) data := by
  rw [validatePayload_eq, failFirst_eq_ok_iff, payloadFaults_eq_nil_iff]

/-! ## Keys and diffs -/

namespace EveryKey
variable {P : String → Prop}

theorem empty : EveryKey P emptyObject := by
  rw [emptyObject, everyKey_object_iff]
  intro k v h
  rw [IndexMap.get?_empty] at h
  cases h

/-- A diff brings no key but its own. -/
theorem applyDiff {data diff : Json} (hdata : EveryKey P data) (hdiff : EveryKey P diff)
    (doDelete : Bool) : EveryKey P (applyDiff data diff doDelete) := by
  induction diff generalizing data with
  | object d ih =>
    rw [everyKey_object_iff] at hdiff
    cases data with
    | object m =>
      rw [everyKey_object_iff] at hdata
      obtain ⟨r, hr, hrk⟩ := applyDiff_object m d doDelete
      rw [hr, everyKey_object_iff]
      intro k v hv
      rw [hrk] at hv
      cases hd : d.get? k with
      | none =>
        rw [hd] at hv
        exact hdata k v hv
      | some w =>
        obtain ⟨hk, hw⟩ := hdiff k w hd
        refine ⟨hk, ?_⟩
        rw [hd] at hv
        cases w with
        | object o =>
          cases hv
          refine ih k _ hd ?_ hw
          cases hm : m.get? k with
          | none => exact empty
          | some e => exact (hdata k e hm).2
        | null =>
          cases doDelete with
          | true => cases hv
          | false => exact Option.some.inj hv ▸ hw
        | _ => exact Option.some.inj hv ▸ hw
    | _ => exact everyKey_object_iff.mpr hdiff
  | _ => exact hdiff

/-- Taking keys out brings none. -/
theorem stripPaths {target : Json} (h : EveryKey P target) (paths : Json) :
    EveryKey P (stripPaths target paths) := by
  induction paths generalizing target with
  | object d ih =>
    cases target with
    | object m =>
      rw [everyKey_object_iff] at h
      obtain ⟨r, hr, hrk⟩ := stripPaths_object m d
      rw [hr, everyKey_object_iff]
      intro k v hv
      rw [hrk] at hv
      cases hd : d.get? k with
      | none =>
        rw [hd] at hv
        exact h k v hv
      | some w =>
        rw [hd, Option.elim_some, stripEntry_eq_some] at hv
        obtain ⟨o, e, s, rfl, he, hs, -, rfl⟩ := hv
        obtain ⟨hk, he⟩ := h k _ he
        exact ⟨hk, hs ▸ ih k _ hd he⟩
    | _ => exact h
  | _ => exact h

theorem construct {p : List String} (hp : ∀ k ∈ p, P k) {v : Json} (hv : EveryKey P v) :
    EveryKey P (KeyPath.construct ⟨p⟩ v) := by
  induction p with
  | nil => exact hv
  | cons k p ih =>
    rw [List.forall_mem_cons] at hp
    rw [KeyPath.construct_cons, everyKey_object_iff]
    intro j w hw
    rw [IndexMap.get?_insert, IndexMap.get?_empty] at hw
    split at hw
    · rename_i hj
      cases hw
      exact ⟨hj ▸ hp.1, ih hp.2⟩
    · cases hw

theorem lookup {j v : Json} {p : List String} (h : EveryKey P j) (hv : j.lookup p = some v) :
    EveryKey P v := by
  induction p generalizing j with
  | nil =>
    rw [lookup_nil] at hv
    exact Option.some.inj hv ▸ h
  | cons k p ih =>
    obtain ⟨m, rfl⟩ := exists_of_isObject (isObject_of_lookup_cons hv)
    rw [lookup_object_cons, Option.bind_eq_some_iff] at hv
    obtain ⟨w, hw, hv⟩ := hv
    exact ih (everyKey_object_iff.mp h k w hw).2 hv

end EveryKey

/-! ## The manager of the tags -/

/-- The payload of a request. -/
def Request.data : Request → Json
  | .updateAggregate data | .createMessage data | .oneShotMessage data => data

namespace PayloadKeys
open TagsWire StepRuns
variable {P : String → Prop}

/-- What an action sends. -/
def requests (w : Wire) : Act → List Request
  | .set tags opts =>
    match (w.st.setNestedTags tags opts).2 with
    | .flush payload => [.updateAggregate payload]
    | _ => []
  | .flush => w.st.flushTags.2.toList.map .updateAggregate
  | .flushImmediateLogs => w.st.flushImmediateLogs.2.toList.map .createMessage
  | .flushLogs now => (w.st.flushLogs now).2.toList.map .createMessage
  | _ => []

/-- Nothing is waiting to be sent, or to be answered. -/
def start (st : TagsState) : Wire :=
  ⟨{ st with
      pendingAggregate := emptyObject, pendingLog := emptyObject
      pendingImmediateLog := emptyObject, dirty := false }, 0, [], []⟩

/-- An object all of whose keys satisfy `P`. -/
structure Keyed (P : String → Prop) (data : Json) : Prop where
  isObject : data.isObject = true
  keys : EveryKey P data

theorem keyed_empty : Keyed P emptyObject := ⟨rfl, .empty⟩

theorem Keyed.applyDiff {data diff : Json} (hdata : Keyed P data) (hdiff : Keyed P diff) :
    Keyed P (applyDiff data diff false) :=
  ⟨isObject_applyDiff hdiff.isObject data false, hdata.keys.applyDiff hdiff.keys false⟩

theorem Keyed.stripPaths {target : Json} (h : Keyed P target) (paths : Json) :
    Keyed P (stripPaths target paths) := by
  refine ⟨?_, h.keys.stripPaths paths⟩
  obtain ⟨m, rfl⟩ := exists_of_isObject h.isObject
  cases paths with
  | object d =>
    obtain ⟨r, hr, -⟩ := stripPaths_object m d
    rw [hr]
    rfl
  | _ => rfl

/-- The buffers hold no key that was not written. -/
structure Buffers (P : String → Prop) (st : TagsState) : Prop where
  aggregate : Keyed P st.pendingAggregate
  log : Keyed P st.pendingLog
  immediate : Keyed P st.pendingImmediateLog

theorem Buffers.set {st : TagsState} (h : Buffers P st) {tags : Json} (htags : Keyed P tags)
    (opts : SetTagOptions) : Buffers P (st.setNestedTags tags opts).1 := by
  rw [TagsState.setNestedTags]
  split
  · exact h
  · have haggregate := h.aggregate.applyDiff htags
    cases opts.log with
    | false => cases opts.flush <;> exact ⟨haggregate, h.log.applyDiff htags, h.immediate⟩
    | true =>
      cases opts.flush <;>
        exact ⟨haggregate, h.log.stripPaths tags, h.immediate.applyDiff htags⟩

/-- What is written is an object all of whose keys satisfy `P`. -/
def Writes (P : String → Prop) : Act → Prop
  | .set tags _ => Keyed P tags
  | _ => True

theorem buffers_step {w : Wire} (h : Buffers P w.st) {a : Act} (ha : Writes P a) :
    Buffers P (step w a).st ∧ ∀ r ∈ requests w a, Keyed P r.data := by
  cases a with
  | set tags opts =>
    rw [step_set_st, requests, TagsState.setNestedTags_snd]
    refine ⟨h.set ha opts, fun r hr => ?_⟩
    by_cases hs : w.st.suppresses tags opts = true
    · rw [if_pos hs] at hr
      cases hr
    · rw [if_neg hs] at hr
      cases hf : opts.flush with
      | false =>
        rw [hf] at hr
        cases hr
      | true =>
        rw [hf] at hr
        cases List.mem_singleton.mp hr
        exact h.aggregate.applyDiff ha
  | setAnswered ok =>
    refine ⟨?_, fun r hr => by cases hr⟩
    rw [step]
    split
    · exact h
    · cases ok <;> exact ⟨h.aggregate, h.log, h.immediate⟩
  | flush =>
    rw [requests, TagsState.flushTags]
    cases hd : w.st.dirty with
    | false =>
      rw [step_flush_of_clean hd]
      exact ⟨h, fun r hr => by cases hr⟩
    | true =>
      rw [step_flush_of_dirty hd]
      refine ⟨⟨keyed_empty, h.log, h.immediate⟩, fun r hr => ?_⟩
      cases List.mem_singleton.mp hr
      exact h.aggregate
  | flushAnswered i ok =>
    refine ⟨?_, fun r hr => by cases hr⟩
    rw [step]
    split
    · cases ok <;> exact ⟨h.aggregate, h.log, h.immediate⟩
    · exact h
  | tagEvent ev =>
    refine ⟨?_, fun r hr => by cases hr⟩
    rw [step, TagsSettled.onTagEvent_eq]
    exact ⟨h.aggregate, h.log, h.immediate⟩
  | uiEvent ev =>
    refine ⟨?_, fun r hr => by cases hr⟩
    rw [step, TagsState.onUiSub]
    split <;> exact ⟨h.aggregate, h.log, h.immediate⟩
  | evaluateLogTriggers kp value =>
    refine ⟨?_, fun r hr => by cases hr⟩
    obtain ⟨ts, hts⟩ := w.st.evaluateLogTriggers_eq kp value
    rw [step, hts]
    exact ⟨h.aggregate, h.log, h.immediate⟩
  | flushImmediateLogs =>
    rw [step, requests, TagsState.flushImmediateLogs]
    split
    · exact ⟨h, fun r hr => by cases hr⟩
    · refine ⟨⟨h.aggregate, h.log, keyed_empty⟩, fun r hr => ?_⟩
      cases List.mem_singleton.mp hr
      exact h.immediate
  | flushLogs now =>
    rw [step, requests, TagsState.flushLogs]
    split
    · exact ⟨h, fun r hr => by cases hr⟩
    · refine ⟨⟨h.aggregate, keyed_empty, h.immediate⟩, fun r hr => ?_⟩
      cases List.mem_singleton.mp hr
      exact h.log

/-! ### The live tags -/

/-- What the agent tells of the aggregate has no key without `P`. -/
def Tells (P : String → Prop) : Act → Prop
  | .tagEvent ev => ∀ values, TagsSettled.eventAggregate ev = some values → EveryKey P values
  | _ => True

/-- The cached values, and what they will have applied to them. -/
structure Cached (P : String → Prop) (w : Wire) : Prop where
  buffers : Buffers P w.st
  values : EveryKey P w.st.tagValues
  flushes : ∀ data ∈ w.flushes, EveryKey P data

theorem cached_step {w : Wire} (h : Cached P w) {a : Act} (ha : Writes P a) (htells : Tells P a) :
    Cached P (step w a) := by
  have hbuffers := (buffers_step h.buffers ha).1
  have hall : (step w a).st.tagValues = w.st.tagValues → (step w a).flushes = w.flushes →
      Cached P (step w a) := fun hv hf =>
    ⟨hbuffers, hv ▸ h.values, hf ▸ h.flushes⟩
  by_cases haside : a.isAside = true
  · obtain ⟨st, hst, hv, -⟩ := step_aside haside w
    exact hall (hst ▸ hv) (hst ▸ rfl)
  cases a with
  | set tags opts =>
    refine hall ?_ ?_
    · rw [step_set_st, TagsState.setNestedTags_tagValues]
    · rw [step]
      split <;> rfl
  | setAnswered ok =>
    by_cases hsets : w.sets = 0
    · rw [step_setAnswered_of_none hsets]
      exact h
    · cases ok with
      | false => exact hall (by rw [step_setAnswered hsets]; rfl) (by rw [step_setAnswered hsets])
      | true =>
        refine ⟨hbuffers, ?_, ?_⟩
        · rw [step_setAnswered hsets]
          exact h.values.applyDiff h.buffers.aggregate.keys true
        · rw [step_setAnswered hsets]
          exact h.flushes
  | flush =>
    cases hd : w.st.dirty with
    | false =>
      rw [step_flush_of_clean hd]
      exact h
    | true =>
      refine ⟨hbuffers, ?_, ?_⟩
      · rw [step_flush_of_dirty hd]
        exact h.values
      · rw [step_flush_of_dirty hd]
        intro data hdata
        rcases List.mem_append.mp hdata with hdata | hdata
        · exact h.flushes data hdata
        · cases List.mem_singleton.mp hdata
          exact h.buffers.aggregate.keys
  | flushAnswered i ok =>
    cases hi : w.flushes[i]? with
    | none =>
      rw [step_flushAnswered_of_none hi]
      exact h
    | some data =>
      refine ⟨hbuffers, ?_, ?_⟩
      · rw [step_flushAnswered hi]
        cases ok with
        | false => exact h.values
        | true => exact h.values.applyDiff (h.flushes data (List.mem_of_getElem? hi)) true
      · rw [step_flushAnswered hi]
        exact fun d hd => h.flushes d (List.mem_of_mem_eraseIdx hd)
  | tagEvent ev =>
    refine ⟨hbuffers, ?_, h.flushes⟩
    rw [step, TagsSettled.onTagEvent_eq]
    show EveryKey P ((TagsSettled.eventAggregate ev).getD w.st.tagValues)
    cases hev : TagsSettled.eventAggregate ev with
    | none => exact h.values
    | some values => exact htells values hev
  | _ => exact absurd rfl haside

/-- The live tags have names and are kept under words. -/
def LiveKeys (P : String → Prop) (keys : List KeyPath) : Prop :=
  ∀ kp ∈ keys, kp.path ≠ [] ∧ ∀ k ∈ kp.path, P k

/-- What is streamed has the keys of the cache, and of the tags themselves. -/
theorem keyed_flushLiveTags {st : TagsState} (hcurrent : EveryKey P st.current)
    (hlive : LiveKeys P st.liveTagKeys) {now : ℚ} {payload : Json}
    (h : st.flushLiveTags now = some payload) : Keyed P payload := by
  rw [LiveTags.flushLiveTags_eq, Option.ite_none_left_eq_some] at h
  rw [← Option.some.inj h.2]
  -- every round of the loop over the live tags keeps the payload keyed
  refine List.foldlRecOn (motive := Keyed P) st.liveTagKeys _ keyed_empty
    fun payload hp kp hkp => ?_
  obtain ⟨hne, hpath⟩ := hlive kp hkp
  rw [LiveTags.add]
  split
  · cases hv : kp.lookup st.current with
    | none => exact hp
    | some value =>
      exact hp.applyDiff ⟨KeyPath.isObject_construct hne value,
        .construct hpath (hcurrent.lookup hv)⟩
  · exact hp

theorem liveTagKeys_step (w : Wire) (a : Act) : (step w a).st.liveTagKeys = w.st.liveTagKeys := by
  cases a with
  | set tags opts =>
    rw [step_set_st, TagsState.setNestedTags]
    split
    · rfl
    · cases opts.log <;> cases opts.flush <;> rfl
  | setAnswered ok =>
    rw [step]
    split
    · rfl
    · cases ok <;> rfl
  | flush =>
    rw [step, TagsState.flushTags]
    cases w.st.dirty <;> rfl
  | flushAnswered i ok =>
    rw [step]
    split
    · cases ok <;> rfl
    · rfl
  | tagEvent ev => rw [step, TagsSettled.onTagEvent_eq]
  | uiEvent ev =>
    rw [step, TagsState.onUiSub]
    split <;> rfl
  | evaluateLogTriggers kp value =>
    obtain ⟨ts, hts⟩ := w.st.evaluateLogTriggers_eq kp value
    rw [step, hts]
  | flushImmediateLogs =>
    obtain ⟨log, hlog⟩ := w.st.flushImmediateLogs_eq
    rw [step, hlog]
  | flushLogs now =>
    obtain ⟨at_, log, hlog⟩ := w.st.flushLogs_eq now
    rw [step, hlog]

/-! ### Runs -/

theorem buffers_start (st : TagsState) : Buffers P (start st).st :=
  ⟨keyed_empty, keyed_empty, keyed_empty⟩

theorem buffers_run (st : TagsState) {acts : List Act} (hwrites : ∀ a ∈ acts, Writes P a) :
    Buffers P (exec step (start st) acts).st ∧
      ∀ r ∈ outputs step requests (start st) acts, Keyed P r.data := by
  refine outputs_invariant step requests (I := fun w rs => Buffers P w.st ∧ ∀ r ∈ rs, Keyed P r.data)
    acts ⟨buffers_start st, fun r hr => by cases hr⟩ fun w rs ⟨hw, hrs⟩ a ha => ?_
  obtain ⟨hnext, hsent⟩ := buffers_step hw (hwrites a ha)
  exact ⟨hnext, List.forall_mem_append.mpr ⟨hrs, hsent⟩⟩

theorem cached_run {st : TagsState} (hst : EveryKey P st.tagValues) {acts : List Act}
    (hwrites : ∀ a ∈ acts, Writes P a) (htells : ∀ a ∈ acts, Tells P a) :
    Cached P (exec step (start st) acts) ∧
      (exec step (start st) acts).st.liveTagKeys = st.liveTagKeys := by
  refine exec_invariant step (I := fun w => Cached P w ∧ w.st.liveTagKeys = st.liveTagKeys)
    ⟨⟨buffers_start st, hst, fun data h => by cases h⟩, rfl⟩ fun w ⟨hw, hkeys⟩ a ha => ?_
  exact ⟨cached_step hw (hwrites a ha) (htells a ha), (liveTagKeys_step w a).trans hkeys⟩

/-- **Nothing is refused for its keys.**  When every write would be accepted by itself, so is
every payload that is sent, however the writes were merged, logged, promoted and flushed; and
so is every message of live tags, if what the agent tells of the aggregate is. -/
theorem payloads_valid (st : TagsState) {acts : List Act}
    (hwrites : ∀ tags opts, .set tags opts ∈ acts → validatePayload tags = .ok ()) :
    (∀ r ∈ outputs step requests (start st) acts, validatePayload r.data = .ok ()) ∧
      (LiveKeys (isKey · = true) st.liveTagKeys → validatePayload st.tagValues = .ok () →
        (∀ ev values, .tagEvent ev ∈ acts → TagsSettled.eventAggregate ev = some values →
          validatePayload values = .ok ()) →
        ∀ now payload, (exec step (start st) acts).st.flushLiveTags now = some payload →
          validatePayload payload = .ok ()) := by
  have hkeyed : ∀ {data}, validatePayload data = .ok () ↔ Keyed (isKey · = true) data := by
    intro data
    rw [validatePayload_ok_iff]
    exact ⟨fun h => ⟨h.1, h.2⟩, fun h => ⟨h.isObject, h.keys⟩⟩
  have hwrites : ∀ a ∈ acts, Writes (isKey · = true) a := by
    intro a ha
    cases a with
    | set tags opts => exact hkeyed.mp (hwrites tags opts ha)
    | _ => trivial
  refine ⟨fun r hr => hkeyed.mpr ((buffers_run st hwrites).2 r hr), ?_⟩
  intro hlive hvalues htold now payload h
  have htells : ∀ a ∈ acts, Tells (isKey · = true) a := by
    intro a ha
    cases a with
    | tagEvent ev => exact fun values hev => (hkeyed.mp (htold ev values ha hev)).keys
    | _ => trivial
  obtain ⟨hcached, hkeys⟩ := cached_run (hkeyed.mp hvalues).keys hwrites htells
  refine hkeyed.mpr (keyed_flushLiveTags ?_ (hkeys ▸ hlive) h)
  exact hcached.values.applyDiff hcached.buffers.aggregate.keys false

/-- A manager that streams the level of a pump. -/
def pump : TagsState := TagsState.default.setLiveTags [.mkScoped "pump" ["level"]]

def levelActs : List Act :=
  [.set ((KeyPath.mkScoped "pump" ["level"]).construct (.bool true)) .default, .flush,
    .tagEvent (.channelSync "tag_values" emptyObject)]

theorem levelActs_valid :
    (∀ r ∈ outputs step requests (start pump) levelActs, validatePayload r.data = .ok ()) ∧
      ∀ now payload, (exec step (start pump) levelActs).st.flushLiveTags now = some payload →
        validatePayload payload = .ok () := by
  have hwrites : ∀ tags opts, .set tags opts ∈ levelActs → validatePayload tags = .ok () := by
    intro tags opts h
    simp only [levelActs, List.mem_cons, Act.set.injEq, reduceCtorEq, List.not_mem_nil, or_false]
      at h
    rw [h.1]
    rfl
  obtain ⟨hsent, hlive⟩ := payloads_valid pump hwrites
  refine ⟨hsent, hlive ?_ rfl ?_⟩
  · intro kp hkp
    cases List.mem_singleton.mp hkp
    decide
  · intro ev values h hev
    simp only [levelActs, List.mem_cons, Act.tagEvent.injEq, reduceCtorEq, List.not_mem_nil,
      or_false, false_or] at h
    subst h
    cases hev
    rfl

end PayloadKeys

end Doover
