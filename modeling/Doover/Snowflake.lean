import Mathlib.Data.Nat.Notation
import Mathlib.Tactic.Ring
import Doover.StepRuns

/-! # Snowflake ids

An id of 64 bits has the milliseconds since the doover epoch in its high bits, then a region,
an instance, the type of the resource and a sequence number.  The fields are shifted and
or-ed together; being narrower than their places they do not meet, so the id is their sum
(`assemble_eq`) and each can be read off again.

The sequence number is what a counter of 8 bits has in its 4 low ones.  The counter belongs to
the process and is read and moved at once, so the ids that are minted with it form one run.
-/

namespace Doover

/-- 00:00:00, Jan 1, 2025, in unix milliseconds. -/
def DOOVER_EPOCH : ℕ := 1735689600000

/-- The type of the resource. -/
inductive SnowflakeType where
  | unknown
  | agent
  | message
  | channel
  | wssSession
  | processorSchedule
  | token
  | notificationEndpoint
  | notificationSubscription
  | attachment
  | alarm
  | oneShotMessage
deriving DecidableEq

def SnowflakeType.code : SnowflakeType → ℕ
  | .unknown => 0
  | .agent => 1
  | .message => 2
  | .channel => 3
  | .wssSession => 4
  | .processorSchedule => 5
  | .token => 6
  | .notificationEndpoint => 7
  | .notificationSubscription => 8
  | .attachment => 9
  | .alarm => 10
  | .oneShotMessage => 11

/-- The sequence number, and the counter after it. -/
def nextRand (sequence : UInt8) : ℕ × UInt8 := (sequence.toNat &&& 0x0F, sequence + 1)

/-- A `u64` shift drops the bits above. -/
def assemble (millis : ℕ) (typeId : SnowflakeType) (regionId : UInt8) (instanceId : UInt16)
    (rand : ℕ) : ℕ :=
  (millis <<< 22) % 2 ^ 64
    ||| (regionId.toNat &&& 0x0F) <<< 18
    ||| (instanceId.toNat &&& 0x3FF) <<< 8
    ||| typeId.code <<< 4
    ||| rand

/-- The milliseconds since the epoch; `u64` subtraction wraps. -/
def millisSinceEpoch (unixMillis : ℕ) : ℕ := (unixMillis + 2 ^ 64 - DOOVER_EPOCH) % 2 ^ 64

/-- An id for an explicit time; without `useRand` its sequence number is zero.  It comes with
the counter after it. -/
def generateSnowflakeIdAt (sequence : UInt8) (unixMillis : ℕ) (typeId : SnowflakeType)
    (regionId : UInt8) (instanceId : UInt16) (useRand : Bool) : ℕ × UInt8 :=
  let (rand, sequence) := if useRand then nextRand sequence else (0, sequence)
  (assemble (millisSinceEpoch unixMillis) typeId regionId instanceId rand, sequence)

/-- An id for the current time. -/
def generateSnowflakeId (sequence : UInt8) (now : ℕ) (typeId : SnowflakeType)
    (regionId : UInt8) (instanceId : UInt16) : ℕ × UInt8 :=
  let (rand, sequence) := nextRand sequence
  (assemble (millisSinceEpoch now) typeId regionId instanceId rand, sequence)

/-- It is one for the time of the clock, with a sequence number. -/
theorem generateSnowflakeId_eq (sequence : UInt8) (now : ℕ) (typeId : SnowflakeType)
    (regionId : UInt8) (instanceId : UInt16) :
    generateSnowflakeId sequence now typeId regionId instanceId =
      generateSnowflakeIdAt sequence now typeId regionId instanceId true := rfl

/-- The unix-millisecond timestamp embedded in a snowflake id. -/
def unixMillisFromSnowflake (snowflakeId : ℕ) : ℕ := snowflakeId / 2 ^ 22 + DOOVER_EPOCH

/-! ## The fields -/

section Fields
variable {millis rand : ℕ} {typeId : SnowflakeType} {regionId : UInt8} {instanceId : UInt16}

theorem SnowflakeType.code_lt (typeId : SnowflakeType) : typeId.code < 16 := by
  cases typeId <;> decide

theorem SnowflakeType.code_injective {a b : SnowflakeType} (h : a.code = b.code) : a = b := by
  cases a <;> cases b <;> first | rfl | cases h

/-- Fields that do not meet add up. -/
theorem assemble_eq (hrand : rand < 16) :
    assemble millis typeId regionId instanceId rand =
      millis % 2 ^ 42 * 2 ^ 22 + regionId.toNat % 16 * 2 ^ 18 + instanceId.toNat % 1024 * 2 ^ 8 +
        typeId.code * 2 ^ 4 + rand := by
  have htype := typeId.code_lt
  have hregion : regionId.toNat &&& 0x0F = regionId.toNat % 2 ^ 4 :=
    Nat.and_two_pow_sub_one_eq_mod _ 4
  have hinstance : instanceId.toNat &&& 0x3FF = instanceId.toNat % 2 ^ 10 :=
    Nat.and_two_pow_sub_one_eq_mod _ 10
  have hmillis : (millis <<< 22) % 2 ^ 64 = (millis % 2 ^ 42) <<< 22 := by
    rw [Nat.shiftLeft_eq, Nat.shiftLeft_eq]
    omega
  rw [assemble, hregion, hinstance, hmillis, Nat.or_assoc, Nat.or_assoc, Nat.or_assoc,
    ← Nat.shiftLeft_add_eq_or_of_lt (i := 4) hrand,
    ← Nat.shiftLeft_add_eq_or_of_lt (i := 8), ← Nat.shiftLeft_add_eq_or_of_lt (i := 18),
    ← Nat.shiftLeft_add_eq_or_of_lt (i := 22)]
  all_goals
    simp only [Nat.shiftLeft_eq]
    omega

theorem div_assemble (hrand : rand < 16) :
    assemble millis typeId regionId instanceId rand / 2 ^ 22 = millis % 2 ^ 42 := by
  have htype := typeId.code_lt
  rw [assemble_eq hrand]
  omega

theorem mod_assemble (hrand : rand < 16) :
    assemble millis typeId regionId instanceId rand % 16 = rand := by
  rw [assemble_eq hrand]
  omega

/-- The time leads. -/
theorem assemble_lt_assemble {millis' rand' : ℕ} {typeId' : SnowflakeType} {regionId' : UInt8}
    {instanceId' : UInt16} (hrand : rand < 16) (hrand' : rand' < 16)
    (h : millis % 2 ^ 42 < millis' % 2 ^ 42) :
    assemble millis typeId regionId instanceId rand <
      assemble millis' typeId' regionId' instanceId' rand' := by
  have htype := typeId.code_lt
  rw [assemble_eq hrand, assemble_eq hrand']
  omega

/-- Every field can be read off. -/
theorem assemble_injective {millis' rand' : ℕ} {typeId' : SnowflakeType} {regionId' : UInt8}
    {instanceId' : UInt16} (hrand : rand < 16) (hrand' : rand' < 16)
    (h : assemble millis typeId regionId instanceId rand =
      assemble millis' typeId' regionId' instanceId' rand') :
    millis % 2 ^ 42 = millis' % 2 ^ 42 ∧ regionId.toNat % 16 = regionId'.toNat % 16 ∧
      instanceId.toNat % 1024 = instanceId'.toNat % 1024 ∧ typeId = typeId' ∧ rand = rand' := by
  have htype := typeId.code_lt
  have htype' := typeId'.code_lt
  rw [assemble_eq hrand, assemble_eq hrand'] at h
  have hcode : typeId.code = typeId'.code := by omega
  exact ⟨by omega, by omega, by omega, SnowflakeType.code_injective hcode, by omega⟩

end Fields

/-! ## Minting -/

/-- A call of `generate_snowflake_id_at`. -/
structure Mint where
  unixMillis : ℕ
  typeId : SnowflakeType
  regionId : UInt8
  instanceId : UInt16
  useRand : Bool

namespace Mint

/-- The id, and the counter after it. -/
def generate (c : Mint) (sequence : UInt8) : ℕ × UInt8 :=
  generateSnowflakeIdAt sequence c.unixMillis c.typeId c.regionId c.instanceId c.useRand

def id (c : Mint) (sequence : UInt8) : ℕ := (c.generate sequence).1

/-- The sequence number of the id. -/
def rand (c : Mint) (sequence : UInt8) : ℕ := if c.useRand then (nextRand sequence).1 else 0

/-- The time is one that an id has room for. -/
def InRange (c : Mint) : Prop :=
  DOOVER_EPOCH ≤ c.unixMillis ∧ c.unixMillis < DOOVER_EPOCH + 2 ^ 42

/-- The ids minted with the counter, in a run of the process. -/
def randIds (sequence : UInt8) (cs : List Mint) : List ℕ :=
  StepRuns.outputs (fun s c => (generate c s).2) (fun s c => if c.useRand then [c.id s] else [])
    sequence cs

theorem nextRand_fst (sequence : UInt8) : (nextRand sequence).1 = sequence.toNat % 16 :=
  Nat.and_two_pow_sub_one_eq_mod _ 4

theorem rand_lt (c : Mint) (sequence : UInt8) : c.rand sequence < 16 := by
  rw [rand]
  split
  · rw [nextRand_fst]
    omega
  · decide

theorem id_eq (c : Mint) (sequence : UInt8) :
    c.id sequence = assemble (millisSinceEpoch c.unixMillis) c.typeId c.regionId c.instanceId
      (c.rand sequence) := by
  rw [id, generate, generateSnowflakeIdAt, rand]
  cases c.useRand <;> rfl

theorem millisSinceEpoch_of_inRange {c : Mint} (h : c.InRange) :
    millisSinceEpoch c.unixMillis % 2 ^ 42 = c.unixMillis - DOOVER_EPOCH := by
  obtain ⟨hlow, hhigh⟩ := h
  rw [millisSinceEpoch, DOOVER_EPOCH] at *
  omega

theorem randIds_cons_of_useRand {c : Mint} (h : c.useRand = true) (sequence : UInt8)
    (cs : List Mint) :
    randIds sequence (c :: cs) = c.id sequence :: randIds (sequence + 1) cs := by
  have hnext : (c.generate sequence).2 = sequence + 1 := by
    rw [generate, generateSnowflakeIdAt, h]
    rfl
  rw [randIds, StepRuns.outputs, if_pos h, hnext]
  rfl

theorem randIds_cons_of_not_useRand {c : Mint} (h : c.useRand = false) (sequence : UInt8)
    (cs : List Mint) : randIds sequence (c :: cs) = randIds sequence cs := by
  have hnext : (c.generate sequence).2 = sequence := by
    rw [generate, generateSnowflakeIdAt, h]
    rfl
  rw [randIds, StepRuns.outputs, h, hnext]
  rfl

theorem id_mod_of_useRand {c : Mint} (h : c.useRand = true) (sequence : UInt8) :
    c.id sequence % 16 = sequence.toNat % 16 := by
  rw [id_eq, mod_assemble (c.rand_lt sequence), rand, if_pos h, nextRand_fst]

/-- The sequence numbers of a run count up from where the counter is, 16 dividing the 256 at
which the counter wraps. -/
theorem randIds_mod (sequence : UInt8) (cs : List Mint) {i x : ℕ}
    (h : (randIds sequence cs)[i]? = some x) : x % 16 = (sequence.toNat + i) % 16 := by
  induction cs generalizing sequence i with
  | nil => cases h
  | cons c cs ih =>
    cases huse : c.useRand with
    | false =>
      rw [randIds_cons_of_not_useRand huse] at h
      exact ih sequence h
    | true =>
      rw [randIds_cons_of_useRand huse] at h
      cases i with
      | zero =>
        cases h
        exact id_mod_of_useRand huse sequence
      | succ i =>
        have hnext : (sequence + 1).toNat = (sequence.toNat + 1) % 256 := UInt8.toNat_add ..
        have hmod := ih (sequence + 1) h
        omega

theorem id_lt_id {c c' : Mint} (sequence sequence' : UInt8) (hc : c.InRange) (hc' : c'.InRange)
    (h : c.unixMillis < c'.unixMillis) : c.id sequence < c'.id sequence' := by
  have hlow := hc.1
  rw [id_eq, id_eq]
  refine assemble_lt_assemble (c.rand_lt sequence) (c'.rand_lt sequence') ?_
  rw [millisSinceEpoch_of_inRange hc, millisSinceEpoch_of_inRange hc']
  omega

/-- **Snowflake ids** give their time back, are in the order of their times and determine their
fields; and of the ids minted with the counter any 16 in a row are distinct, whatever they are
minted for. -/
theorem snowflakes_decode_order_distinct :
    (∀ (c : Mint) (sequence : UInt8), c.InRange →
      unixMillisFromSnowflake (c.id sequence) = c.unixMillis) ∧
    (∀ (c c' : Mint) (sequence sequence' : UInt8), c.InRange → c'.InRange →
      c.unixMillis < c'.unixMillis → c.id sequence < c'.id sequence') ∧
    (∀ (c c' : Mint) (sequence sequence' : UInt8), c.InRange → c'.InRange →
      c.id sequence = c'.id sequence' →
        c.unixMillis = c'.unixMillis ∧ c.regionId.toNat % 16 = c'.regionId.toNat % 16 ∧
          c.instanceId.toNat % 1024 = c'.instanceId.toNat % 1024 ∧ c.typeId = c'.typeId ∧
          c.rand sequence = c'.rand sequence') ∧
    ∀ (sequence : UInt8) (cs : List Mint) (i j x y : ℕ), (randIds sequence cs)[i]? = some x →
      (randIds sequence cs)[j]? = some y → i < j → j < i + 16 → x ≠ y := by
  refine ⟨fun c sequence hc => ?_, fun c c' sequence sequence' hc hc' h => ?_,
    fun c c' sequence sequence' hc hc' h => ?_, fun sequence cs i j x y hx hy hij hj heq => ?_⟩
  · have hlow := hc.1
    rw [unixMillisFromSnowflake, id_eq, div_assemble (c.rand_lt sequence),
      millisSinceEpoch_of_inRange hc]
    omega
  · exact id_lt_id sequence sequence' hc hc' h
  · have hlow := hc.1
    have hlow' := hc'.1
    rw [id_eq, id_eq] at h
    obtain ⟨hmillis, hfields⟩ := assemble_injective (c.rand_lt sequence) (c'.rand_lt sequence') h
    rw [millisSinceEpoch_of_inRange hc, millisSinceEpoch_of_inRange hc'] at hmillis
    exact ⟨by omega, hfields⟩
  · have hi := randIds_mod sequence cs hx
    have hj' := randIds_mod sequence cs hy
    rw [heq] at hi
    omega

end Mint
end Doover
