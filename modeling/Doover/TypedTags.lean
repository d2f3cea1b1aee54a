import Doover.ProcessorTags
import Doover.RpcCommands
import Doover.TagWrites
import Doover.TagsRuntime

/-! # Typed tag handles

A `Tag T` reads and writes one tag of the runtime's app through a `TagValue`, a type
with its own representation in JSON.  A write is dropped when the value held is equal
to the new one for Python (`numbersEq`), which mixes booleans, integers and doubles; a
read decodes the value held with the stricter `fromValue`.  So what is read after a
write is the value written, or a value held before that Python takes for it
(`readsBack_iff`), and `set_reads_back_iff` says which of those decode to another value.
-/

namespace Doover
open Json

/-! ## Numbers as doubles and integers -/

/-- A 64-bit signed integer. -/
structure I64 where
  val : ℤ
  range : -2 ^ 63 ≤ val ∧ val < 2 ^ 63
deriving DecidableEq

theorem I64.ext {m n : I64} (h : m.val = n.val) : m = n := by
  obtain ⟨v, hv⟩ := m
  obtain ⟨w, hw⟩ := n
  obtain rfl : v = w := h
  rfl

/-- `f64 as i64`. -/
def F64.toI64 (x : F64) : I64 := ⟨f64AsI64 x.val, f64AsI64_range x.val⟩

/-- `as_i64`. -/
def Number.toI64 : Number → Option I64
  | .int n range => if h : n < 2 ^ 63 then some ⟨n, range.1, h⟩ else none
  | .float _ => none

theorem Number.toI64_val (n : Number) : n.toI64.map I64.val = n.asI64 := by
  cases n with
  | int n range =>
    rw [toI64, asI64]
    split <;> rfl
  | float x => rfl

/-! ## Typed values -/

/-- A type that can live in a tag slot. -/
class TagValue (T : Type) where
  toValue : T → Json
  fromValue : Json → Option T

instance : TagValue F64 where
  toValue x := .number (.float x)
  fromValue
    | .number n => some n.toF64
    | _ => none

/-- A whole double is read as an integer too. -/
instance : TagValue I64 where
  toValue n := .number (.int n.val ⟨n.range.1, n.range.2.trans (by decide)⟩)
  fromValue
    | .number n => n.toI64.or (if n.toF64.val.isInt then some n.toF64.toI64 else none)
    | _ => none

instance : TagValue Bool where
  toValue := .bool
  fromValue
    | .bool b => some b
    | _ => none

instance : TagValue String where
  toValue := .string
  fromValue := asStr

/-- A value of the type is a JSON leaf, and is read from its own representation. -/
class LawfulTagValue (T : Type) [TagValue T] : Prop where
  isObject_toValue : ∀ v : T, (TagValue.toValue v).isObject = false
  toValue_ne_null : ∀ v : T, TagValue.toValue v ≠ .null
  fromValue_toValue : ∀ v : T, TagValue.fromValue (TagValue.toValue v) = some v

open TagValue LawfulTagValue

instance : LawfulTagValue F64 where
  isObject_toValue _ := rfl
  toValue_ne_null _ := Json.noConfusion
  fromValue_toValue _ := rfl

instance : LawfulTagValue I64 where
  isObject_toValue _ := rfl
  toValue_ne_null _ := Json.noConfusion
  fromValue_toValue n := by
    have hint : Number.toI64 (.int n.val ⟨n.range.1, n.range.2.trans (by decide)⟩) = some n :=
      dif_pos n.range.2
    simp only [toValue, fromValue, hint, Option.some_or]

instance : LawfulTagValue Bool where
  isObject_toValue _ := rfl
  toValue_ne_null _ := Json.noConfusion
  fromValue_toValue _ := rfl

instance : LawfulTagValue String where
  isObject_toValue _ := rfl
  toValue_ne_null _ := Json.noConfusion
  fromValue_toValue _ := rfl

/-! ## Handles -/

/-- The tag manager an attached handle routes to: its app key and the state under its
mutex. -/
structure TagsRuntime where
  appKey : String
  state : TagsState

/-- A tag's declaration; with a remote app key it reads another app's tag. -/
structure Tag (T : Type) where
  name : String
  /-- `some .null` is a declared default of `None`. -/
  default : Option Json
  remoteAppKey : Option String

namespace Tag
variable {T : Type}

/-- A tag of the app itself. -/
def declared (T : Type) (name : String) (default : Option Json) : Tag T := ⟨name, default, none⟩

variable (tag : Tag T)

def effectiveAppKey (rt : TagsRuntime) : String := tag.remoteAppKey.getD rt.appKey

variable [TagValue T]

/-- The current value, or the default; a detached handle has no runtime. -/
def get (rt : Option TagsRuntime) : Option T :=
  match rt.bind fun rt => rt.state.getTag (tag.effectiveAppKey rt) tag.name with
  | some .null | none =>
    match tag.default with
    | some .null | none => none
    | some v => fromValue v
  | some v => fromValue v

def setWith (rt : Option TagsRuntime) (value : T) (opts : SetTagOptions) :
    Except DooverError (TagsRuntime × TagWrite) :=
  match tag.remoteAppKey, rt with
  | some appKey, _ =>
    .error ⟨"RuntimeError", "tag '" ++ tag.name ++ "': remote (cross-app) tag on '" ++ appKey ++
      "' is read-only"⟩
  | none, none => .error ⟨"RuntimeError", "tag '" ++ tag.name ++ "': tags not attached"⟩
  | none, some rt =>
    let r := rt.state.setTag rt.appKey tag.name (toValue value) opts
    .ok (⟨rt.appKey, r.1⟩, r.2)

/-- Buffered, to be flushed at the end of the loop iteration. -/
def set (rt : Option TagsRuntime) (value : T) : Except DooverError (TagsRuntime × TagWrite) :=
  tag.setWith rt value .default

/-- After a set that succeeds the tag reads as the value. -/
def ReadsBack (rt : TagsRuntime) (value : T) : Prop :=
  ∀ r, tag.set (some rt) value = .ok r → tag.get (some r.1) = some value

end Tag

/-! ## What is read after a write -/

/-- A write of one tag is dropped exactly when a value is held that Python takes for
it. -/
theorem isEmptyObject_generateDiff_construct {p : List String} (hp : p ≠ []) {v : Json}
    (hv : v.isObject = false) (cur : Json) :
    isEmptyObject (generateDiff cur (KeyPath.construct ⟨p⟩ v) false) = true ↔
      cur.holds p v = true := by
  obtain ⟨t, ht⟩ := exists_of_isObject (KeyPath.isObject_construct hp v)
  have hleaf := KeyPath.lookup_construct p v
  constructor
  · intro h
    rw [ht] at h hleaf
    exact holds_iff.mpr (lookup_of_isEmptyObject_generateDiff h hleaf hv)
  · intro h
    obtain ⟨c, hc, hcv⟩ := holds_iff.mp h
    refine isEmptyObject_generateDiff_of_held (fun q x hx hxl => ?_) fun q o ho => ?_
    · obtain ⟨rfl, rfl⟩ := KeyPath.eq_of_lookup_construct hv hxl hx
      exact ⟨c, hc, hcv⟩
    · obtain ⟨rest, rfl⟩ := KeyPath.prefix_of_lookup_construct hv ho
      rw [lookup_append] at hc
      obtain ⟨w, hw, hrest⟩ := Option.bind_eq_some_iff.mp hc
      rw [hw]
      cases rest with
      | nil =>
        rw [List.append_nil] at hleaf ho
        cases hleaf.symm.trans ho
        cases hv
      | cons k rest =>
        obtain ⟨r, rfl⟩ := exists_of_isObject (isObject_of_lookup_cons hrest)
        exact ⟨r, rfl⟩

namespace TagsState
variable (st : TagsState) (appKey key : String) (opts : SetTagOptions)

/-- **Reading a tag just set.**  A dropped write leaves the value held, any other is read
back as it is. -/
theorem getTag_setTag {v : Json} (hv : v.isObject = false) :
    (st.setTag appKey key v opts).1.getTag appKey key =
      if opts.onlyIfChanged && (st.getTag appKey key).any (pythonJsonEq · v) then
        st.getTag appKey key
      else some v := by
  have hp := KeyPath.mkScoped_path_ne_nil appKey key
  obtain ⟨ts, hts⟩ := st.evaluateLogTriggers_eq (KeyPath.mkScoped appKey [key]) v
  have hdropped := isEmptyObject_generateDiff_construct hp hv st.current
  have hsuppresses : ∀ log, ({ st with logTriggers := ts } : TagsState).suppresses
      ((KeyPath.mkScoped appKey [key]).construct v) { opts with log } =
      (opts.onlyIfChanged && (st.getTag appKey key).any (pythonJsonEq · v)) := by
    intro log
    exact congrArg (opts.onlyIfChanged && ·) (Bool.eq_iff_iff.mpr hdropped)
  unfold setTag
  simp only
  rw [hts, getTag, current, setNestedTags_tagValues, setNestedTags_pendingAggregate, hsuppresses]
  split
  · rfl
  · have hleaf : ((KeyPath.mkScoped appKey [key]).construct v).lookup
        (KeyPath.mkScoped appKey [key]).path = some v := KeyPath.lookup_construct _ v
    exact lookup_applyDiff_leaf (lookup_applyDiff_leaf hleaf hv (.inl rfl) _) hv (.inl rfl) _

end TagsState

namespace Tag
variable {T : Type} [TagValue T] {rt : TagsRuntime} {name : String} {default : Option Json}

theorem get_of_some {tag : Tag T} {c : Json}
    (h : rt.state.getTag (tag.effectiveAppKey rt) tag.name = some c) (hc : c ≠ .null) :
    tag.get (some rt) = fromValue c := by
  rw [get, Option.bind_some, h]
  cases c with
  | null => exact absurd rfl hc
  | _ => rfl

/-- **A typed write is read back** exactly when every value held that Python takes for it
decodes to it. -/
theorem readsBack_iff [LawfulTagValue T] (v : T) :
    (declared T name default).ReadsBack rt v ↔
      ∀ c, rt.state.getTag rt.appKey name = some c → pythonJsonEq c (toValue v) = true →
        fromValue c = some v := by
  have hset : (declared T name default).set (some rt) v =
      .ok (⟨rt.appKey, (rt.state.setTag rt.appKey name (toValue v) .default).1⟩, _) := rfl
  have hget := rt.state.getTag_setTag rt.appKey name .default (isObject_toValue v)
  rw [SetTagOptions.default, Bool.true_and] at hget
  rw [ReadsBack, hset]
  simp only [Except.ok.injEq, forall_eq']
  cases hheld : rt.state.getTag rt.appKey name with
  | none =>
    rw [hheld] at hget
    refine iff_of_true ?_ (by simp)
    exact (get_of_some hget (toValue_ne_null v)).trans (fromValue_toValue v)
  | some c =>
    rw [hheld, Option.any_some] at hget
    cases heq : pythonJsonEq c (toValue v) with
    | false =>
      rw [heq, if_neg Bool.false_ne_true] at hget
      refine iff_of_true ?_ (by simp [heq])
      exact (get_of_some hget (toValue_ne_null v)).trans (fromValue_toValue v)
    | true =>
      rw [heq, if_pos rfl] at hget
      have hnull : c ≠ .null := by
        rintro rfl
        exact toValue_ne_null v (eq_null_of_pythonJsonEq heq)
      have hread : (declared T name default).get
          (some ⟨rt.appKey, (rt.state.setTag rt.appKey name (toValue v) .default).1⟩) =
            fromValue c := get_of_some hget hnull
      rw [hread]
      constructor
      · intro hv c' hc' _
        cases hc'
        exact hv
      · exact fun h => h c rfl heq

/-! ## What Python takes for a typed value -/

/-- A boolean or number equals what has an equal numeric value. -/
theorem pythonJsonEq_iff_of_numericValue {c v : Json} {y : PyNum}
    (hv : numericValue v = some y) :
    pythonJsonEq c v = true ↔ ∃ x, numericValue c = some x ∧ numbersEq x y = true := by
  have hsymm : pythonJsonEq c v = true ↔ pythonJsonEq v c = true :=
    ⟨pythonJsonEq_symm, pythonJsonEq_symm⟩
  rw [hsymm, pythonJsonEq_of_numericValue hv, Option.any_eq_true]
  simp only [numbersEq_comm y]

/-- Only a string equals a string. -/
theorem eq_of_pythonJsonEq_string {c : Json} {s : String}
    (h : pythonJsonEq c (.string s) = true) : c = .string s := by
  cases c with
  | string t =>
    rw [pythonJsonEq, beq_iff_eq] at h
    rw [h]
  | number n =>
    obtain ⟨x, hx⟩ := numericValue_number n
    rw [pythonJsonEq.eq_def] at h
    simp only [hx] at h
    cases h
  | _ => cases h

variable {v c : Json}

/-- A boolean is not read as a double. -/
theorem fromValue_f64_iff (x : F64) :
    (pythonJsonEq c (toValue x) = true → fromValue c = some x) ↔
      ∀ b, c = .bool b → (b.toInt : ℚ) ≠ x.val := by
  have hpy := pythonJsonEq_iff_of_numericValue (c := c) (numericValue_float x)
  have hsmall : ∀ b : Bool, roundToF64 b.toInt = b.toInt := by decide
  rw [show toValue x = .number (.float x) from rfl, hpy]
  cases c with
  | bool b =>
    simp only [numericValue_bool, Option.some.injEq, exists_eq_left', numbersEq, hsmall,
      beq_iff_eq, Json.bool.injEq, forall_eq']
    constructor
    · intro h heq
      cases h heq
    · exact fun hne heq => absurd heq hne
  | number n =>
    refine iff_of_true ?_ (by simp)
    rintro ⟨y, hy, heq⟩
    refine congrArg some (F64.ext ?_)
    cases n with
    | int m range =>
      rw [numericValue_int] at hy
      cases hy
      exact beq_iff_eq.mp heq
    | float y =>
      rw [numericValue_float] at hy
      cases hy
      exact beq_iff_eq.mp heq
  | _ => exact iff_of_true (by simp [numericValue]) (by simp)

/-- A boolean is not read as an integer, and a double is read as the integer it denotes,
not as the one that rounds to it. -/
theorem fromValue_i64_iff (m : I64) :
    (pythonJsonEq c (toValue m) = true → fromValue c = some m) ↔
      (∀ b, c = .bool b → b.toInt ≠ m.val) ∧
        ∀ x, c = .number (.float x) → x.val = roundToF64 m.val → x.toI64 = m := by
  have hpy := pythonJsonEq_iff_of_numericValue (c := c)
    (numericValue_int m.val ⟨m.range.1, m.range.2.trans (by decide)⟩)
  rw [show toValue m = .number (.int m.val ⟨m.range.1, m.range.2.trans (by decide)⟩) from rfl,
    hpy]
  cases c with
  | bool b =>
    simp only [numericValue_bool, Option.some.injEq, exists_eq_left', numbersEq, beq_iff_eq,
      Json.bool.injEq, forall_eq', reduceCtorEq, false_implies, implies_true, and_true]
  | number n =>
    cases n with
    | int n range =>
      refine iff_of_true ?_ (by simp)
      rintro ⟨y, hy, heq⟩
      rw [numericValue_int] at hy
      cases hy
      obtain rfl : n = m.val := beq_iff_eq.mp heq
      exact fromValue_toValue m
    | float x =>
      have hfloat : ∀ y, numericValue (.number (.float x)) = some y ↔ y = .float x.val := by
        intro y
        rw [numericValue_float, Option.some.injEq, eq_comm]
      simp only [hfloat, exists_eq_left, numbersEq, beq_iff_eq, reduceCtorEq, false_implies,
        implies_true, true_and, Json.number.injEq, Number.float.injEq, forall_eq']
      have hread : x.val = roundToF64 m.val →
          (fromValue (T := I64) (.number (.float x)) = some m ↔ x.toI64 = m) := by
        intro hx
        have hwhole : x.val.isInt = true := by
          rw [hx]
          rfl
        simp only [fromValue, Number.toI64, Number.toF64, Option.none_or, hwhole, if_true,
          Option.some.injEq]
      constructor
      · exact fun h hx => (hread hx).mp (h hx.symm)
      · exact fun h hx => (hread hx.symm).mpr (h hx.symm)
  | _ => exact iff_of_true (by simp [numericValue]) (by simp)

/-- A number is not read as a boolean. -/
theorem fromValue_bool_iff (b : Bool) :
    (pythonJsonEq c (toValue b) = true → fromValue c = some b) ↔
      ∀ n, c = .number n → n.value ≠ b.toInt := by
  have hpy := pythonJsonEq_iff_of_numericValue (c := c) (numericValue_bool b)
  have hsmall : ∀ b : Bool, roundToF64 b.toInt = b.toInt := by decide
  rw [show toValue b = .bool b from rfl, hpy]
  cases c with
  | bool b' =>
    refine iff_of_true ?_ (by simp)
    rintro ⟨y, hy, heq⟩
    cases hy
    have hinj : ∀ b b' : Bool, b.toInt = b'.toInt → b = b' := by decide
    exact congrArg some (hinj b' b (beq_iff_eq.mp heq))
  | number n =>
    have hunread : fromValue (T := Bool) (.number n) = none := rfl
    have hvalue : (∃ y, numericValue (.number n) = some y ∧ numbersEq y (.int b.toInt) = true) ↔
        n.value = b.toInt := by
      cases n with
      | int n range =>
        simp only [numericValue_int, Option.some.injEq, exists_eq_left', numbersEq, beq_iff_eq,
          Number.value, Int.cast_inj]
      | float x =>
        simp only [numericValue_float, Option.some.injEq, exists_eq_left', numbersEq, beq_iff_eq,
          Number.value, hsmall]
        exact eq_comm
    rw [hunread, hvalue]
    simp
  | _ => exact iff_of_true (by simp [numericValue]) (by simp)

/-! ## Typed read-your-writes -/

theorem readsBack_iff_of_held [LawfulTagValue T] {P : Json → Prop} (v : T)
    (hP : ∀ c, (pythonJsonEq c (toValue v) = true → fromValue c = some v) ↔ P c) :
    (declared T name default).ReadsBack rt v ↔
      ∀ c, rt.state.getTag rt.appKey name = some c → P c := by
  rw [readsBack_iff]
  exact forall₂_congr fun c _ => hP c

/-- **When a typed write is read back.**  A double is, unless a boolean equal to it is held;
an integer is, unless a boolean equal to it is held or a double that it rounds to but that
reads as another integer; a boolean is, unless a number equal to it is held; a string always
is. -/
theorem set_reads_back_iff (rt : TagsRuntime) (name : String) (default : Option Json) :
    (∀ v : F64, (declared F64 name default).ReadsBack rt v ↔
        ∀ b, rt.state.getTag rt.appKey name = some (.bool b) → (b.toInt : ℚ) ≠ v.val) ∧
      (∀ v : I64, (declared I64 name default).ReadsBack rt v ↔
        (∀ b, rt.state.getTag rt.appKey name = some (.bool b) → b.toInt ≠ v.val) ∧
          ∀ x, rt.state.getTag rt.appKey name = some (.number (.float x)) →
            x.val = roundToF64 v.val → x.toI64 = v) ∧
      (∀ v : Bool, (declared Bool name default).ReadsBack rt v ↔
        ∀ n, rt.state.getTag rt.appKey name = some (.number n) → n.value ≠ v.toInt) ∧
      ∀ v : String, (declared String name default).ReadsBack rt v := by
  refine ⟨fun v => ?_, fun v => ?_, fun v => ?_, fun v => ?_⟩
  · rw [readsBack_iff_of_held v fun c => fromValue_f64_iff v]
    constructor
    · exact fun h b hb => h _ hb b rfl
    · intro h c hc b hb
      exact h b (hb ▸ hc)
  · rw [readsBack_iff_of_held v fun c => fromValue_i64_iff v]
    constructor
    · exact fun h => ⟨fun b hb => (h _ hb).1 b rfl, fun x hx => (h _ hx).2 x rfl⟩
    · intro h c hc
      exact ⟨fun b hb => h.1 b (hb ▸ hc), fun x hx => h.2 x (hx ▸ hc)⟩
  · rw [readsBack_iff_of_held v fun c => fromValue_bool_iff v]
    constructor
    · exact fun h n hn => h _ hn n rfl
    · intro h c hc n hn
      exact h n (hn ▸ hc)
  · rw [readsBack_iff]
    intro c _ heq
    rw [eq_of_pythonJsonEq_string heq]
    rfl

/-- The agent holds `1` for a switch; switching it on is dropped, and it reads as unset. -/
theorem switch_reads_unset :
    let rt : TagsRuntime := ⟨"app", { TagsState.default with
      tagValues := Json.ofList [("app", Json.ofList [("switch", .ofInt 1 (by decide))])] }⟩
    let switch : Tag Bool := declared Bool "switch" none
    (∃ r, switch.set (some rt) true = .ok r ∧ switch.get (some r.1) = none) ∧
      ¬ switch.ReadsBack rt true := by
  intro rt switch
  have hunset : ∃ r, switch.set (some rt) true = .ok r ∧ switch.get (some r.1) = none :=
    ⟨_, rfl, rfl⟩
  refine ⟨hunset, fun hread => ?_⟩
  obtain ⟨r, hr, hget⟩ := hunset
  rw [hread r hr] at hget
  cases hget

end Tag

end Doover
