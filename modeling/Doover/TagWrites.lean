import Mathlib.Data.List.Induction
import Doover.KeyPath

/-! # Writes of tags, path by path

A write puts a value at each path where its nested object ends in one
(`valueAt`).  Of a history of writes a path remembers the last value
(`lastWritten`): a write with a value there replaces it, a write that misses the
path leaves it, and a write that overlaps the path otherwise, above it or below
it, leaves nothing to be remembered.  When no written path is a proper prefix of
another the last case does not occur (`lastWritten_eq_lastValue`), so what is
remembered is the value of the last write to the path.

`Retains buffer p v` is the invariant of every buffer of writes: a value that was
written last is either what the buffer has at the path, or of no concern to it.
-/

namespace Doover
namespace Json

/-- The value, other than an object, that ends the path. -/
def valueAt (j : Json) (p : List String) : Option Json :=
  (j.lookup p).filter fun v => !v.isObject

/-- Whether the path ends in something that Python takes for `v`. -/
def holds (j : Json) (p : List String) (v : Json) : Bool :=
  (j.lookup p).any fun c => pythonJsonEq c v

theorem valueAt_eq_some {j v : Json} {p : List String} :
    j.valueAt p = some v ↔ j.lookup p = some v ∧ v.isObject = false := by
  simp [valueAt, Option.filter_eq_some_iff]

theorem holds_iff {j v : Json} {p : List String} :
    j.holds p v = true ↔ ∃ c, j.lookup p = some c ∧ pythonJsonEq c v = true := by
  simp [holds, Option.any_eq_true]

theorem holds_of_lookup {j v : Json} {p : List String} (h : j.lookup p = some v) :
    j.holds p v = true := holds_iff.mpr ⟨v, h, pythonJsonEq_refl v⟩

theorem holds_congr {j j' : Json} {p : List String} (h : j.lookup p = j'.lookup p) (v : Json) :
    j.holds p v = j'.holds p v := by
  rw [holds, holds, h]

theorem not_misses_of_valueAt {j v : Json} {p : List String} (h : j.valueAt p = some v) :
    ¬ j.Misses p := fun hm =>
  absurd (hm.lookup.symm.trans (valueAt_eq_some.mp h).1) (Option.some_ne_none v).symm

theorem valueAt_of_misses {j : Json} {p : List String} (h : j.Misses p) : j.valueAt p = none := by
  rw [valueAt, h.lookup, Option.filter_none]

theorem valueAt_cons (m : IndexMap String Json) (k : String) (p : List String) :
    (Json.object m).valueAt (k :: p) = (m.get? k).bind fun v => v.valueAt p := by
  rw [valueAt, lookup_object_cons]
  cases m.get? k <;> rfl

theorem valueAt_object_cons {t : IndexMap String Json} {k : String} {v : Json}
    (h : t.get? k = some v) (p : List String) :
    (Json.object t).valueAt (k :: p) = v.valueAt p := by
  rw [valueAt_cons, h, Option.bind_some]

theorem valueAt_append {j v : Json} {p : List String} (h : j.lookup p = some v)
    (q : List String) : j.valueAt (p ++ q) = v.valueAt q := by
  rw [valueAt, valueAt, lookup_append, h, Option.bind_some]

theorem valueAt_leaf {v : Json} (hv : v.isObject = false) {p : List String} {x : Json} :
    v.valueAt p = some x ↔ p = [] ∧ x = v := by
  rw [valueAt_eq_some]
  cases p with
  | nil =>
    rw [lookup_nil, Option.some.injEq]
    constructor
    · rintro ⟨rfl, -⟩
      exact ⟨rfl, rfl⟩
    · rintro ⟨-, rfl⟩
      exact ⟨rfl, hv⟩
  | cons k p => simp [lookup_cons_of_not_isObject hv]

/-- An object has no value at the empty path. -/
theorem ne_nil_of_valueAt {m : IndexMap String Json} {p : List String} {v : Json}
    (h : (Json.object m).valueAt p = some v) : p ≠ [] := by
  rintro rfl
  obtain ⟨hl, hv⟩ := valueAt_eq_some.mp h
  rw [lookup_nil, Option.some.injEq] at hl
  rw [← hl] at hv
  cases hv

/-- A diff without deletions: a value of it is what the path holds afterwards. -/
theorem lookup_applyDiff_of_valueAt {diff v : Json} {p : List String}
    (h : diff.valueAt p = some v) (data : Json) :
    (applyDiff data diff false).lookup p = some v :=
  lookup_applyDiff_leaf (valueAt_eq_some.mp h).1 (valueAt_eq_some.mp h).2 (Or.inl rfl) data

theorem valueAt_applyDiff_of_valueAt {diff v : Json} {p : List String}
    (h : diff.valueAt p = some v) (data : Json) :
    (applyDiff data diff false).valueAt p = some v :=
  valueAt_eq_some.mpr ⟨lookup_applyDiff_of_valueAt h data, (valueAt_eq_some.mp h).2⟩

theorem valueAt_applyDiff_of_misses {diff : Json} {p : List String} (h : diff.Misses p)
    (data : Json) (doDelete : Bool) :
    (applyDiff data diff doDelete).valueAt p = data.valueAt p := by
  rw [valueAt, valueAt, lookup_applyDiff_of_misses h]

/-- A diff that has something else at the path leaves no value there. -/
theorem valueAt_applyDiff_of_overlap {diff : Json} {p : List String}
    (hv : diff.valueAt p = none) (hm : ¬ diff.Misses p) (data : Json) (doDelete : Bool) :
    (applyDiff data diff doDelete).valueAt p = none := by
  rcases lookup_or_misses_or_blocks diff p with ⟨v, h⟩ | h | h
  · cases v with
    | object o =>
      obtain ⟨r, hr⟩ := lookup_applyDiff_object h data doDelete
      simp [valueAt, hr, isObject]
    | _ => simp [valueAt, h, isObject] at hv
  · exact absurd h hm
  · simp [valueAt, lookup_applyDiff_of_blocks h]

/-- A diff that does not miss the path decides, by itself, whether a value is held
there afterwards. -/
theorem holds_applyDiff_of_not_misses {diff v : Json} {p : List String} (hm : ¬ diff.Misses p)
    (hv : v.isObject = false) (hnull : v ≠ .null) (data : Json) (doDelete : Bool) :
    (applyDiff data diff doDelete).holds p v = diff.holds p v := by
  have hobj := pythonJsonEq_object_leaf hv
  have hnone : pythonJsonEq .null v = false := by
    by_contra h
    exact hnull (eq_null_of_pythonJsonEq (Bool.eq_true_of_not_eq_false h))
  rcases lookup_or_misses_or_blocks diff p with ⟨x, h⟩ | h | h
  · cases x with
    | object o =>
      obtain ⟨r, hr⟩ := lookup_applyDiff_object h data doDelete
      rw [holds, holds, h, hr, Option.any_some, Option.any_some, hobj, hobj]
    | null =>
      rw [holds, holds, h, Option.any_some, hnone]
      cases hr : (applyDiff data diff doDelete).lookup p with
      | none => rfl
      | some c => rw [lookup_applyDiff_null h data doDelete hr, Option.any_some, hnone]
    | _ =>
      exact holds_congr ((lookup_applyDiff_leaf h rfl (Or.inr Json.noConfusion) data).trans h.symm) v
  · exact absurd h hm
  · rw [holds, holds, lookup_applyDiff_of_blocks h, lookup_of_blocks h]

/-! ## The last value written at a path -/

instance decidableMisses : ∀ (j : Json) (p : List String), Decidable (j.Misses p)
  | .object m, k :: p =>
    match h : m.get? k with
    | some v =>
      have := decidableMisses v p
      decidable_of_iff (v.Misses p) (by rw [Misses, h])
    | none => .isTrue (by rw [Misses, h]; trivial)
  | .object _, [] => .isFalse (not_misses_nil _)
  | .null, _ => .isFalse fun h => by cases h.isObject
  | .bool _, _ => .isFalse fun h => by cases h.isObject
  | .number _, _ => .isFalse fun h => by cases h.isObject
  | .string _, _ => .isFalse fun h => by cases h.isObject
  | .array _, _ => .isFalse fun h => by cases h.isObject

/-- What a path remembers after a write, by what it remembered before. -/
def afterWrite (p : List String) (last : Option Json) (tags : Json) : Option Json :=
  (tags.valueAt p).or (if tags.Misses p then last else none)

/-- The value written last at a path. -/
def lastWritten (writes : List Json) (p : List String) : Option Json :=
  writes.foldl (afterWrite p) none

theorem afterWrite_eq_some {p : List String} {last : Option Json} {tags v : Json} :
    afterWrite p last tags = some v ↔
      tags.valueAt p = some v ∨ (tags.Misses p ∧ last = some v) := by
  unfold afterWrite
  by_cases hm : tags.Misses p
  · simp [hm, valueAt_of_misses hm]
  · simp [hm]

theorem afterWrite_of_misses {p : List String} {tags : Json} (h : tags.Misses p)
    (last : Option Json) : afterWrite p last tags = last := by
  rw [afterWrite, valueAt_of_misses h, Option.none_or, if_pos h]

theorem afterWrite_of_valueAt {p : List String} {tags v : Json} (h : tags.valueAt p = some v)
    (last : Option Json) : afterWrite p last tags = some v := by
  rw [afterWrite, h, Option.some_or]

/-- **A diff is a write, at every path.**  Applied without deletions, it leaves at
each path the value that the path remembers after the write. -/
theorem valueAt_applyDiff (data diff : Json) (p : List String) :
    (applyDiff data diff false).valueAt p = afterWrite p (data.valueAt p) diff := by
  by_cases hm : diff.Misses p
  · rw [valueAt_applyDiff_of_misses hm, afterWrite_of_misses hm]
  · cases hv : diff.valueAt p with
    | some v => rw [valueAt_applyDiff_of_valueAt hv, afterWrite_of_valueAt hv]
    | none =>
      rw [valueAt_applyDiff_of_overlap hv hm, afterWrite, hv, Option.none_or, if_neg hm]

/-- Nothing in the value is `null`. -/
def NoNull (j : Json) : Prop := ∀ p, j.valueAt p ≠ some .null

theorem valueAt_empty (p : List String) : (Json.object .empty).valueAt p = none := by
  cases p with
  | nil => rw [valueAt, lookup_nil]; rfl
  | cons k p => exact valueAt_of_misses (misses_empty k p)

theorem noNull_empty : NoNull (.object .empty) := fun p h => by
  rw [valueAt_empty] at h
  cases h

theorem NoNull.applyDiff {data diff : Json} (hdata : data.NoNull) (hdiff : diff.NoNull) :
    (applyDiff data diff false).NoNull := by
  intro p h
  rw [valueAt_applyDiff] at h
  rcases afterWrite_eq_some.mp h with h | ⟨-, h⟩
  · exact hdiff p h
  · exact hdata p h

/-- Without a `null` in it, a diff is the same write when deletions are on. -/
theorem NoNull.valueAt_applyDiff {diff : Json} (h : diff.NoNull) (data : Json) (doDelete : Bool)
    (p : List String) :
    (Doover.applyDiff data diff doDelete).valueAt p = afterWrite p (data.valueAt p) diff := by
  by_cases hm : diff.Misses p
  · rw [valueAt_applyDiff_of_misses hm, afterWrite_of_misses hm]
  · cases hv : diff.valueAt p with
    | some v =>
      obtain ⟨hl, hvl⟩ := valueAt_eq_some.mp hv
      have hne : v ≠ .null := fun hnull => h p (hnull ▸ hv)
      rw [afterWrite_of_valueAt hv]
      exact valueAt_eq_some.mpr ⟨lookup_applyDiff_leaf hl hvl (Or.inr hne) data, hvl⟩
    | none =>
      rw [valueAt_applyDiff_of_overlap hv hm, afterWrite, hv, Option.none_or, if_neg hm]

/-- What is remembered after a write over one value is remembered after the same write
over a value that agrees with it. -/
theorem afterWrite_mono {p : List String} {last last' : Option Json} {tags v : Json}
    (h : ∀ v, last = some v → last' = some v) (hv : afterWrite p last tags = some v) :
    afterWrite p last' tags = some v := by
  rw [afterWrite_eq_some] at hv ⊢
  exact hv.imp_right fun ⟨hm, hl⟩ => ⟨hm, h v hl⟩

/-- Writing twice is writing once. -/
theorem afterWrite_idem (p : List String) (last : Option Json) (tags : Json) :
    afterWrite p (afterWrite p last tags) tags = afterWrite p last tags := by
  by_cases hm : tags.Misses p
  · rw [afterWrite_of_misses hm, afterWrite_of_misses hm]
  · cases hv : tags.valueAt p with
    | some v => rw [afterWrite_of_valueAt hv, afterWrite_of_valueAt hv]
    | none => simp [afterWrite, hv, hm]

/-- A value shown through a buffer is still shown when a write that misses its path
joins the buffer. -/
theorem afterWrite_buffer_of_misses {p : List String} {last : Option Json} {buffer tags v : Json}
    (ht : tags.Misses p) (h : afterWrite p last buffer = some v) :
    afterWrite p last (applyDiff buffer tags false) = some v := by
  rw [afterWrite_eq_some] at h ⊢
  rcases h with h | ⟨hm, h⟩
  · exact Or.inl (by rw [valueAt_applyDiff_of_misses ht, h])
  · exact Or.inr ⟨misses_applyDiff hm ht false, h⟩

/-- So is the value that the write itself has there. -/
theorem afterWrite_buffer_of_valueAt {p : List String} {tags v : Json}
    (ht : tags.valueAt p = some v) (last : Option Json) (buffer : Json) :
    afterWrite p last (applyDiff buffer tags false) = some v :=
  afterWrite_of_valueAt (valueAt_applyDiff_of_valueAt ht buffer) last

@[simp] theorem lastWritten_nil (p : List String) : lastWritten [] p = none := rfl

theorem lastWritten_concat (writes : List Json) (tags : Json) (p : List String) :
    lastWritten (writes ++ [tags]) p = afterWrite p (lastWritten writes p) tags := by
  rw [lastWritten, List.foldl_append]
  rfl

/-! ### Writes on paths none of which is a proper prefix of another -/

/-- The last of the values the writes have at the path, whatever else they write. -/
def lastValue (writes : List Json) (p : List String) : Option Json :=
  writes.foldl (fun last tags => (tags.valueAt p).or last) none

/-- The paths the writes write: none is a proper prefix of another, and no write
ends in an empty object. -/
structure PrefixFree (writes : List Json) : Prop where
  prefixFree : ∀ t ∈ writes, ∀ t' ∈ writes, ∀ p q v w,
    t.valueAt p = some v → t'.valueAt q = some w → p <+: q → p = q
  full : ∀ t ∈ writes, ∀ q o, t.lookup q = some (.object o) → ∃ r v, t.valueAt (q ++ r) = some v

theorem exists_valueAt_of_blocks {j : Json} {p : List String} (h : j.Blocks p) :
    ∃ q r v, p = q ++ r ∧ r ≠ [] ∧ j.valueAt q = some v := by
  induction p generalizing j with
  | nil => cases j <;> exact False.elim h
  | cons k p ih =>
    cases j with
    | object m =>
      rw [Blocks] at h
      cases hm : m.get? k with
      | none => rw [hm] at h; exact False.elim h
      | some e =>
        rw [hm] at h
        obtain ⟨q, r, v, rfl, hr, hv⟩ := ih h
        rw [valueAt_eq_some] at hv
        refine ⟨k :: q, r, v, rfl, hr, valueAt_eq_some.mpr ⟨?_, hv.2⟩⟩
        rw [lookup_object_cons, hm, Option.bind_some, hv.1]
    | _ => exact ⟨[], k :: p, _, rfl, List.cons_ne_nil k p, valueAt_eq_some.mpr ⟨lookup_nil _, rfl⟩⟩

/-- A write without a value at a path that another write has one at misses it. -/
theorem PrefixFree.misses {writes : List Json} (hw : PrefixFree writes) {t t' v : Json}
    {p : List String} (ht : t ∈ writes) (ht' : t' ∈ writes) (hv : t'.valueAt p = some v)
    (hnone : t.valueAt p = none) : t.Misses p := by
  rcases lookup_or_misses_or_blocks t p with ⟨x, hx⟩ | hm | hb
  · cases x with
    | object o =>
      obtain ⟨r, w, hr⟩ := hw.full t ht p o hx
      have heq := hw.prefixFree t' ht' t ht p (p ++ r) v w hv hr (List.prefix_append p r)
      rw [← heq, hnone] at hr
      cases hr
    | _ => rw [valueAt_eq_some.mpr ⟨hx, rfl⟩] at hnone; cases hnone
  · exact hm
  · obtain ⟨q, r, w, rfl, hr, hq⟩ := exists_valueAt_of_blocks hb
    have heq := hw.prefixFree t ht t' ht' q (q ++ r) w v hq hv (List.prefix_append q r)
    exact absurd (List.append_right_eq_self.mp heq.symm) hr

/-- **What is remembered is the last value.**  When no written path is a proper
prefix of another, a path that is written remembers the value of the last write to
it. -/
theorem lastWritten_eq_lastValue {writes : List Json} (hw : PrefixFree writes) {t v : Json}
    {p : List String} (ht : t ∈ writes) (hv : t.valueAt p = some v) :
    lastWritten writes p = lastValue writes p := by
  have same : ∀ ws : List Json, (∀ t ∈ ws, t ∈ writes) → ∀ last,
      ws.foldl (afterWrite p) last = ws.foldl (fun last tags => (tags.valueAt p).or last) last := by
    intro ws
    induction ws with
    | nil => exact fun _ _ => rfl
    | cons w ws ih =>
      intro hws last
      have hstep : afterWrite p last w = (w.valueAt p).or last := by
        cases hw' : w.valueAt p with
        | some x => rw [afterWrite, hw', Option.some_or, Option.some_or]
        | none =>
          rw [afterWrite, hw', if_pos (hw.misses (hws w List.mem_cons_self) ht hv hw')]
      rw [List.foldl_cons, List.foldl_cons, hstep]
      exact ih (fun t h => hws t (List.mem_cons_of_mem w h)) _
  exact same writes (fun _ h => h) none

/-- Writes of single tags, on paths none of which is a proper prefix of another. -/
theorem prefixFree_construct (ws : List (List String × Json))
    (hv : ∀ w ∈ ws, w.2.isObject = false)
    (hp : ∀ w ∈ ws, ∀ w' ∈ ws, w.1 <+: w'.1 → w.1 = w'.1) :
    PrefixFree (ws.map fun w => KeyPath.construct ⟨w.1⟩ w.2) where
  prefixFree := by
    intro t ht t' ht' p q v w hp' hq hpq
    obtain ⟨x, hx, rfl⟩ := List.mem_map.mp ht
    obtain ⟨y, hy, rfl⟩ := List.mem_map.mp ht'
    obtain ⟨hl, hvl⟩ := valueAt_eq_some.mp hp'
    obtain ⟨hl', hwl⟩ := valueAt_eq_some.mp hq
    obtain ⟨rfl, -⟩ := KeyPath.eq_of_lookup_construct (hv x hx) hvl hl
    obtain ⟨rfl, -⟩ := KeyPath.eq_of_lookup_construct (hv y hy) hwl hl'
    exact hp x hx y hy hpq
  full := by
    intro t ht q o hq
    obtain ⟨x, hx, rfl⟩ := List.mem_map.mp ht
    obtain ⟨r, hr⟩ := KeyPath.prefix_of_lookup_construct (hv x hx) hq
    exact ⟨r, x.2, valueAt_eq_some.mpr ⟨hr ▸ KeyPath.lookup_construct x.1 x.2, hv x hx⟩⟩

/-! ## Buffers of writes -/

/-- The value is what the buffer has at the path, up to Python's equality, or the
buffer has nothing to do with the path. -/
def Retains (buffer : Json) (p : List String) (v : Json) : Prop :=
  buffer.Misses p ∨ ∃ x, buffer.valueAt p = some x ∧ pythonJsonEq x v = true

theorem retains_empty {p : List String} (hp : p ≠ []) (v : Json) :
    Retains (.object .empty) p v := by
  cases p with
  | nil => exact absurd rfl hp
  | cons k p => exact Or.inl (misses_empty k p)

theorem retains_applyDiff_of_valueAt {tags v : Json} {p : List String}
    (h : tags.valueAt p = some v) (buffer : Json) : Retains (applyDiff buffer tags false) p v :=
  Or.inr ⟨v, valueAt_applyDiff_of_valueAt h buffer, pythonJsonEq_refl v⟩

theorem Retains.applyDiff_of_misses {buffer tags v : Json} {p : List String}
    (h : Retains buffer p v) (ht : tags.Misses p) : Retains (applyDiff buffer tags false) p v := by
  rcases h with h | ⟨x, hx, hxv⟩
  · exact Or.inl (misses_applyDiff h ht false)
  · exact Or.inr ⟨x, by rw [valueAt_applyDiff_of_misses ht, hx], hxv⟩

/-- Applying a buffer that retains a value leaves the value held, if it was held where
the buffer is not concerned. -/
theorem Retains.holds_applyDiff {buffer v : Json} {p : List String} (h : Retains buffer p v)
    {data : Json} (hd : buffer.Misses p → data.holds p v = true) :
    (applyDiff data buffer false).holds p v = true := by
  rcases h with h | ⟨x, hx, hxv⟩
  · rw [holds_congr (lookup_applyDiff_of_misses h data false), hd h]
  · exact holds_iff.mpr ⟨x, lookup_applyDiff_of_valueAt hx data, hxv⟩

/-- What a buffer over some data shows is retained by the buffer. -/
theorem retains_of_holds_applyDiff {data buffer v : Json} {p : List String}
    (hv : v.isObject = false) (h : (applyDiff data buffer false).holds p v = true) :
    Retains buffer p v := by
  obtain ⟨c, hc, hcv⟩ := holds_iff.mp h
  have hcl : c.isObject = false := (isObject_of_pythonJsonEq hcv).trans hv
  by_cases hm : buffer.Misses p
  · exact Or.inl hm
  · cases hb : buffer.valueAt p with
    | some x =>
      have := lookup_applyDiff_of_valueAt hb data
      rw [hc, Option.some.injEq] at this
      exact Or.inr ⟨x, hb, this ▸ hcv⟩
    | none =>
      have := valueAt_applyDiff_of_overlap hb hm data false
      rw [valueAt_eq_some.mpr ⟨hc, hcl⟩] at this
      cases this

end Json
end Doover
