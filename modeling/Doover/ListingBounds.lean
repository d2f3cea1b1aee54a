import Doover.Events
import Doover.Snowflake

/-! # Bounds of a message listing

`--before` and `--after` take a snowflake id or a date, which becomes the id that sorts at that
instant.  A date before the doover epoch is refused, as there is no id for it.

An id has room for `2 ^ 42` milliseconds, which end in 2164, and a date after that is not
refused: its bound is that of an earlier instant.  So bounds and ids sort like their instants
exactly when these are in the same order once what an id has no room for is taken off
(`bound_sorts_iff`).
-/

namespace Doover

/-- What is used of the date library, and of the local time zone; `Naive` is a date and time
without an offset. -/
structure Dates (Naive : Type) where
  /-- `DateTime::parse_from_rfc3339`, by its unix milliseconds. -/
  parseFromRfc3339 : String → Option ℤ
  /-- `NaiveDateTime::parse_from_str`. -/
  parseFromStr : String → String → Option Naive
  /-- `NaiveDate::parse_from_str`, at midnight. -/
  parseDate : String → String → Option Naive
  /-- `and_local_timezone(Local).single()`. -/
  localMillis : Naive → Option ℤ
  /-- `{s:?}`. -/
  debug : String → String

/-- `u64::try_from`. -/
def u64TryFrom (x : ℤ) : Option ℕ := if 0 ≤ x ∧ x < 2 ^ 64 then some x.toNat else none

section Parse
variable {Naive : Type} (dates : Dates Naive)

def parseIso8601Millis (s : String) : Except String ℕ := do
  let err := dates.debug s ++ " is not a unix-millisecond timestamp or an ISO-8601 datetime"
  let millis ← match dates.parseFromRfc3339 s with
    | some millis => .ok millis
    | none =>
      let naive := (dates.parseFromStr s "%Y-%m-%dT%H:%M:%S%.f").or
        ((dates.parseFromStr s "%Y-%m-%d %H:%M:%S%.f").or (dates.parseDate s "%Y-%m-%d"))
      match naive.bind dates.localMillis with
      | some millis => .ok millis
      | none => .error err
  match u64TryFrom millis with
  | some millis => return millis
  | none => .error (dates.debug s ++ " is before the unix epoch")

/-- A `--before` or `--after`.  The sequence number being zero, no counter is read. -/
def parseSnowflakeBound (s : String) : Except String ℕ := do
  let s := trim s.toList
  match parseU64 s with
  | some id => return id
  | none =>
    let s := String.ofList s
    let millis ← parseIso8601Millis dates s
    if millis < DOOVER_EPOCH then
      .error (dates.debug s ++ " is before the doover epoch (2025-01-01)")
    else return (generateSnowflakeIdAt 0 millis .unknown 0 0 false).1

/-- The string denotes an instant, in unix milliseconds. -/
def Dates.Denotes (s : String) (t : ℤ) : Prop :=
  dates.parseFromRfc3339 (String.ofList (trim s.toList)) = some t

end Parse

/-- An RFC 3339 date is written with hyphens. -/
def Dates.Hyphenated {Naive : Type} (dates : Dates Naive) : Prop :=
  ∀ s t, dates.parseFromRfc3339 s = some t → '-' ∈ s.toList

/-- What an id keeps of an instant. -/
def kept (t : ℤ) : ℤ := (t - DOOVER_EPOCH) % 2 ^ 42

/-! ## A date is not read as an id -/

theorem parseDigits_eq_none {c : Char} (hc : c.isDigit = false) {s : List Char} (h : c ∈ s)
    (acc : ℕ) : parseDigits acc s = none := by
  induction s generalizing acc with
  | nil => cases h
  | cons d s ih =>
    rw [parseDigits]
    split
    · rename_i hd
      rcases List.mem_cons.mp h with rfl | h
      · cases hc.symm.trans hd
      · exact ih h _
    · rfl

theorem parseU64_of_hyphen {s : List Char} (h : '-' ∈ s) : parseU64 s = none := by
  have hdigit : ('-' : Char).isDigit = false := by decide
  have hnone : ∀ digits : List Char, '-' ∈ digits →
      (if digits.isEmpty then none else (parseDigits 0 digits).filter fun n => n < 2 ^ 64) = none := by
    intro digits hmem
    rw [parseDigits_eq_none hdigit hmem]
    split <;> rfl
  unfold parseU64
  split
  · exact hnone _ ((List.mem_cons.mp h).resolve_left (by decide))
  · exact hnone _ h

/-! ## The bound of a date -/

section Bound
variable {Naive : Type} {dates : Dates Naive} {s s₁ s₂ : String} {t t₁ t₂ : ℤ} {b b₁ b₂ : ℕ}

theorem u64TryFrom_eq_some {x : ℤ} {n : ℕ} (h : u64TryFrom x = some n) : x = n := by
  unfold u64TryFrom at h
  split at h
  · rename_i hx
    cases h
    exact (Int.toNat_of_nonneg hx.1).symm
  · cases h

theorem eq_of_parseIso8601Millis {millis : ℕ} (ht : dates.parseFromRfc3339 s = some t)
    (h : parseIso8601Millis dates s = .ok millis) : t = millis := by
  unfold parseIso8601Millis at h
  simp only [ht] at h
  cases hmillis : u64TryFrom t with
  | none =>
    simp only [bind, Except.bind, hmillis] at h
    cases h
  | some n =>
    simp only [bind, Except.bind, hmillis] at h
    cases h
    exact u64TryFrom_eq_some hmillis

/-- The bound of a date that is accepted. -/
theorem eq_of_parseSnowflakeBound (hdates : dates.Hyphenated) (ht : dates.Denotes s t)
    (h : parseSnowflakeBound dates s = .ok b) :
    ∃ millis : ℕ, t = millis ∧ DOOVER_EPOCH ≤ millis ∧
      b = (generateSnowflakeIdAt 0 millis .unknown 0 0 false).1 := by
  have hhyphen := hdates _ _ ht
  rw [String.toList_ofList] at hhyphen
  unfold parseSnowflakeBound at h
  simp only [parseU64_of_hyphen hhyphen] at h
  cases hmillis : parseIso8601Millis dates (String.ofList (trim s.toList)) with
  | error e =>
    rw [hmillis] at h
    cases h
  | ok millis =>
    rw [hmillis] at h
    by_cases hepoch : millis < DOOVER_EPOCH
    · simp only [bind, Except.bind, if_pos hepoch] at h
      cases h
    · simp only [bind, Except.bind, if_neg hepoch] at h
      cases h
      exact ⟨millis, eq_of_parseIso8601Millis ht hmillis, not_lt.mp hepoch, rfl⟩

theorem millisSinceEpoch_mod (millis : ℕ) :
    ((millisSinceEpoch millis % 2 ^ 42 : ℕ) : ℤ) = kept millis := by
  rw [millisSinceEpoch, kept, DOOVER_EPOCH]
  omega

/-- A bound has nothing below its time. -/
theorem bound_eq (millis : ℕ) : (generateSnowflakeIdAt 0 millis .unknown 0 0 false).1 =
    millisSinceEpoch millis % 2 ^ 42 * 2 ^ 22 := by
  have hid : (generateSnowflakeIdAt 0 millis .unknown 0 0 false).1 =
      assemble (millisSinceEpoch millis) .unknown 0 0 0 := rfl
  have htype : SnowflakeType.unknown.code = 0 := rfl
  rw [hid, assemble_eq (by decide), htype, UInt8.toNat_zero, UInt16.toNat_zero]
  omega

/-- An id is at a bound or above it when what is kept of its instant is. -/
theorem bound_le_id_iff (c : Mint) (sequence : UInt8) (millis : ℕ) :
    (generateSnowflakeIdAt 0 millis .unknown 0 0 false).1 ≤ c.id sequence ↔
      kept millis ≤ kept c.unixMillis := by
  have hrand := c.rand_lt sequence
  have htype := c.typeId.code_lt
  rw [← millisSinceEpoch_mod, ← millisSinceEpoch_mod, bound_eq, c.id_eq, assemble_eq hrand]
  omega

theorem bound_lt_bound_iff (millis millis' : ℕ) :
    (generateSnowflakeIdAt 0 millis .unknown 0 0 false).1 <
        (generateSnowflakeIdAt 0 millis' .unknown 0 0 false).1 ↔ kept millis < kept millis' := by
  rw [← not_le, ← not_le]
  exact not_congr (bound_le_id_iff ⟨millis, .unknown, 0, 0, false⟩ 0 millis')

/-- The bounds of two dates, and an id, sort like the instants. -/
def SortLikeTime (t₁ t₂ : ℤ) (b₁ b₂ : ℕ) (c : Mint) (sequence : UInt8) : Prop :=
  (t₁ < t₂ → b₁ < b₂) ∧ (t₁ ≤ c.unixMillis → b₁ ≤ c.id sequence) ∧
    (c.unixMillis < t₁ → c.id sequence < b₁)

theorem sortLikeTime_iff (m₁ m₂ : ℕ) (c : Mint) (sequence : UInt8) :
    SortLikeTime m₁ m₂ (generateSnowflakeIdAt 0 m₁ .unknown 0 0 false).1
        (generateSnowflakeIdAt 0 m₂ .unknown 0 0 false).1 c sequence ↔
      ((m₁ : ℤ) < m₂ → kept m₁ < kept m₂) ∧
        ((m₁ : ℤ) ≤ c.unixMillis ↔ kept m₁ ≤ kept c.unixMillis) := by
  rw [SortLikeTime, bound_lt_bound_iff, ← not_le (b := c.id sequence), bound_le_id_iff]
  refine and_congr_right fun _ => ⟨fun ⟨hle, hlt⟩ => ⟨hle, fun hkept => ?_⟩, fun hiff => ?_⟩
  · by_contra hbefore
    exact hlt (not_le.mp hbefore) hkept
  · exact ⟨hiff.mp, fun hbefore hkept => absurd (hiff.mpr hkept) (not_le.mpr hbefore)⟩

/-- **When listing bounds are monotone.**  The bounds of two dates and an id sort like the
instants exactly when the instants are in the same order by what is kept of them, the
milliseconds since the epoch modulo `2 ^ 42`. -/
theorem bound_sorts_iff (hdates : dates.Hyphenated) (ht₁ : dates.Denotes s₁ t₁)
    (ht₂ : dates.Denotes s₂ t₂) (hb₁ : parseSnowflakeBound dates s₁ = .ok b₁)
    (hb₂ : parseSnowflakeBound dates s₂ = .ok b₂) (c : Mint) (sequence : UInt8) :
    SortLikeTime t₁ t₂ b₁ b₂ c sequence ↔
      (t₁ < t₂ → kept t₁ < kept t₂) ∧ (t₁ ≤ c.unixMillis ↔ kept t₁ ≤ kept c.unixMillis) := by
  obtain ⟨m₁, rfl, -, rfl⟩ := eq_of_parseSnowflakeBound hdates ht₁ hb₁
  obtain ⟨m₂, rfl, -, rfl⟩ := eq_of_parseSnowflakeBound hdates ht₂ hb₂
  exact sortLikeTime_iff m₁ m₂ c sequence

/-- Up to 2164 they do. -/
theorem sortLikeTime_of_inRange (hdates : dates.Hyphenated) (ht₁ : dates.Denotes s₁ t₁)
    (ht₂ : dates.Denotes s₂ t₂) (hb₁ : parseSnowflakeBound dates s₁ = .ok b₁)
    (hb₂ : parseSnowflakeBound dates s₂ = .ok b₂) (h₁ : t₁ < DOOVER_EPOCH + 2 ^ 42)
    (h₂ : t₂ < DOOVER_EPOCH + 2 ^ 42) {c : Mint} (hc : c.InRange) (sequence : UInt8) :
    SortLikeTime t₁ t₂ b₁ b₂ c sequence := by
  obtain ⟨m₁, rfl, hlow, rfl⟩ := eq_of_parseSnowflakeBound hdates ht₁ hb₁
  obtain ⟨m₂, rfl, -, rfl⟩ := eq_of_parseSnowflakeBound hdates ht₂ hb₂
  obtain ⟨hlowc, hhighc⟩ := hc
  rw [sortLikeTime_iff]
  simp only [kept, DOOVER_EPOCH] at *
  omega

end Bound

/-! ## Past the room of an id -/

namespace LateBound

def june2025 : String := "2025-06-15T12:00:00Z"
def january2164 : String := "2164-01-01T00:00:00Z"
def january2165 : String := "2165-01-01T00:00:00Z"

/-- A library that reads these dates. -/
def dates : Dates Unit where
  parseFromRfc3339 s :=
    if s = june2025 then some 1749988800000
    else if s = january2164 then some 6122044800000
    else if s = january2165 then some 6153667200000
    else none
  parseFromStr _ _ := none
  parseDate _ _ := none
  localMillis _ := none
  debug s := s

theorem dates_hyphenated : dates.Hyphenated := by
  intro s t h
  have hdates : s = june2025 ∨ s = january2164 ∨ s = january2165 := by
    by_contra hno
    rw [not_or, not_or] at hno
    have hnone : dates.parseFromRfc3339 s = none := by
      simp only [dates, if_neg hno.1, if_neg hno.2.1, if_neg hno.2.2]
    cases hnone.symm.trans h
  rcases hdates with rfl | rfl | rfl <;> decide

/-- The bound of January 2165 is below that of January 2164. -/
theorem later_bound_sorts_first :
    dates.Denotes january2164 6122044800000 ∧ dates.Denotes january2165 6153667200000 ∧
      parseSnowflakeBound dates january2164 = .ok 18397707160780800000 ∧
      parseSnowflakeBound dates january2165 = .ok 83597045880848384 ∧
      ¬ SortLikeTime 6122044800000 6153667200000 18397707160780800000 83597045880848384
        ⟨6122044800000, .message, 0, 0, true⟩ 0 := by
  refine ⟨rfl, rfl, rfl, rfl, fun hsort => ?_⟩
  have hlt := hsort.1 (by decide)
  omega

/-- An id of June 2025 is at its bound, and below that of 2164. -/
theorem june_bound_sorts :
    SortLikeTime 1749988800000 6122044800000 59975191756800000 18397707160780800000
      ⟨1749988800000, .message, 0, 0, true⟩ 0 := by
  have hjune : dates.Denotes june2025 1749988800000 := rfl
  have hlater : dates.Denotes january2164 6122044800000 := rfl
  refine (bound_sorts_iff dates_hyphenated hjune hlater rfl rfl
    ⟨1749988800000, .message, 0, 0, true⟩ 0).mpr ⟨by decide, by decide⟩

end LateBound
end Doover
