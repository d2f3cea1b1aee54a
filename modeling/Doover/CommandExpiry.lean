import Doover.ConfigSchema
import Doover.RpcTasks

/-! # Lifetimes of commands

A caller gives a command a lifetime, and the receiver adds it to the time in the message's id.
On its way the lifetime goes through a cast to `i64`, which wraps, and a double, which is
rounded; the cast back saturates and the sum wraps.

Nothing wraps, and a longer lifetime ends no earlier, exactly when the time of the message and
the lifetime as a double come to less than `2 ^ 63` (`expiry_iff`).  A lifetime over that, meant
as one that never ends, has ended before it began.
-/

namespace Doover
open Json

/-! ## Requests -/

/-- A `Duration`. -/
structure Duration where
  secs : UInt64
  nanos : ℕ
  nanos_lt : nanos < 10 ^ 9

namespace Duration

def asMillis (d : Duration) : ℕ := d.secs.toNat * 1000 + d.nanos / 10 ^ 6

/-- The order of time. -/
instance : LE Duration :=
  ⟨fun a b => a.secs.toNat < b.secs.toNat ∨ a.secs.toNat = b.secs.toNat ∧ a.nanos ≤ b.nanos⟩

theorem asMillis_mono {a b : Duration} (h : a ≤ b) : a.asMillis ≤ b.asMillis := by
  have ha := a.nanos_lt
  rw [asMillis, asMillis]
  rcases h with h | ⟨h, h'⟩ <;> omega

/-- `Duration::MAX`. -/
def max : Duration := ⟨.ofNat (2 ^ 64 - 1), 10 ^ 9 - 1, by decide⟩

def ofSecs (secs : UInt64) : Duration := ⟨secs, 0, by decide⟩

end Duration

/-- What a call may add to its request. -/
structure CallOptions where
  appKey : Option String
  actor : Option Json
  reason : Option String
  oldValue : Option Json
  expiresAfter : Option Duration
  retryOf : Option String

namespace CallOptions

def withExpiresAfter (opts : CallOptions) (expiresAfter : Duration) : CallOptions :=
  { opts with expiresAfter := some expiresAfter }

def requestPayload (opts : CallOptions) (method : String) (params : Option Json) : Json :=
  let data := IndexMap.empty.insert "type" (.string "rpc")
  let data := data.insert "method" (.string method)
  let data := data.insert "request" (params.getD (.object .empty))
  let data := data.insert "status" (Json.ofList [("code", .string "sent")])
  let data := data.insert "response" (.object .empty)
  let data := insertSome data "app_key" (opts.appKey.map .string)
  let data := insertSome data "actor" opts.actor
  let data := insertSome data "reason" (opts.reason.map .string)
  let data := insertSome data "old_value" opts.oldValue
  let data := insertSome data "expires_after" (opts.expiresAfter.map fun d => ofI64 d.asMillis)
  .object (insertSome data "retry_of" (opts.retryOf.map .string))

end CallOptions

theorem get?_insertSome_of_ne {m : IndexMap String Json} {k j : String} (h : j ≠ k)
    (v : Option Json) : (insertSome m k v).get? j = m.get? j := by
  cases v with
  | none => rfl
  | some v => exact IndexMap.get?_insert_of_ne v h

theorem get?_requestPayload (opts : CallOptions) (d : Duration) (method : String)
    (params : Option Json) :
    ((opts.withExpiresAfter d).requestPayload method params).get? "expires_after" =
      some (ofI64 d.asMillis) := by
  rw [CallOptions.requestPayload, get?_object, get?_insertSome_of_ne (by decide)]
  exact IndexMap.get?_insert_self ..

/-! ## Casts -/

/-- A time and a cast lifetime stay below the end of `i64` when the lifetime does. -/
theorem add_f64AsI64_lt_iff {created : ℤ} (h : 0 < created) (h' : created < 2 ^ 63) (x : ℚ) :
    created + f64AsI64 x < 2 ^ 63 ↔ created + x < 2 ^ 63 := by
  have htrunc : x.num.tdiv x.den < 2 ^ 63 - created ↔ x < ((2 ^ 63 - created : ℤ) : ℚ) := by
    rw [num_tdiv_den]
    split
    · exact Int.floor_lt
    · rename_i hx
      have hceil : ⌈x⌉ ≤ 0 := Int.ceil_le.mpr (by exact_mod_cast (not_le.mp hx).le)
      refine iff_of_true (by omega) ((not_le.mp hx).trans ?_)
      exact_mod_cast (by omega : (0 : ℤ) < 2 ^ 63 - created)
  have hcast : created + x < 2 ^ 63 ↔ x < ((2 ^ 63 - created : ℤ) : ℚ) := by
    push_cast
    constructor <;> intro <;> linarith
  rw [hcast, ← htrunc]
  unfold f64AsI64
  omega

/-! ## The expiry -/

/-- The time in a message's id, in unix milliseconds. -/
def createdAt (id : UInt64) : ℕ := unixMillisFromSnowflake id.toNat

theorem createdAt_pos (id : UInt64) : 0 < createdAt id := by
  unfold createdAt unixMillisFromSnowflake DOOVER_EPOCH
  omega

theorem createdAt_lt (id : UInt64) : createdAt id < 2 ^ 63 := by
  have hid := id.toNat_lt
  unfold createdAt unixMillisFromSnowflake DOOVER_EPOCH
  omega

theorem bmod_two_pow_eq_iff {x : ℤ} :
    Int.bmod x (2 ^ 64) = x ↔ -2 ^ 63 ≤ x ∧ x < 2 ^ 63 := by
  have hlow := Int.le_bmod (x := x) (m := 2 ^ 64) (by norm_num)
  have hhigh := Int.bmod_lt (x := x) (m := 2 ^ 64) (by norm_num)
  constructor
  · intro h
    omega
  · rintro ⟨h, h'⟩
    exact Int.bmod_eq_of_le (by omega) (by omega)

theorem commandExpiresAt_number {data : Json} {n : Number} (id : UInt64)
    (h : data.get? "expires_after" = some (.number n)) :
    commandExpiresAt id.toNat data =
      some (Int.bmod (createdAt id + f64AsI64 n.asF64) (2 ^ 64)) := by
  rw [commandExpiresAt, h]
  rfl

/-- The sum of the time and the lifetime `n` does not wrap. -/
def SumFits (id : UInt64) (data : Json) (n : Number) : Prop :=
  commandExpiresAt id.toNat data = some (createdAt id + f64AsI64 n.asF64)

theorem sumFits_iff {id : UInt64} {data : Json} {n : Number}
    (h : data.get? "expires_after" = some (.number n)) :
    SumFits id data n ↔ createdAt id + n.asF64 < 2 ^ 63 := by
  have hpos := createdAt_pos id
  have hlt := createdAt_lt id
  have hlow : -2 ^ 63 ≤ f64AsI64 n.asF64 := le_max_left ..
  have hcast : (createdAt id : ℤ) + f64AsI64 n.asF64 < 2 ^ 63 ↔
      ((createdAt id : ℤ) : ℚ) + n.asF64 < 2 ^ 63 :=
    add_f64AsI64_lt_iff (by omega) (by omega) n.asF64
  rw [Int.cast_natCast] at hcast
  rw [SumFits, commandExpiresAt_number id h, Option.some_inj, bmod_two_pow_eq_iff, ← hcast]
  exact and_iff_right (by omega)

/-- The first command does not outlive the second. -/
def NoLater (id : UInt64) (data data' : Json) : Prop :=
  (∃ x ∈ commandExpiresAt id.toNat data, ∃ y ∈ commandExpiresAt id.toNat data', x ≤ y) ∧
    ∀ now, commandIsExpired id.toNat data' now = true → commandIsExpired id.toNat data now = true

theorem SumFits.noLater {id : UInt64} {data data' : Json} {m n : Number}
    (h : SumFits id data m) (h' : SumFits id data' n) (hmn : m.asF64 ≤ n.asF64) :
    NoLater id data data' := by
  have hle : (createdAt id : ℤ) + f64AsI64 m.asF64 ≤ createdAt id + f64AsI64 n.asF64 :=
    Int.add_le_add_left (f64AsI64_mono hmn) _
  refine ⟨⟨_, h, _, h', hle⟩, fun now => ?_⟩
  unfold commandIsExpired
  rw [h, h', Option.any_some, Option.any_some, decide_eq_true_iff, decide_eq_true_iff]
  exact hle.trans

/-- Of two JSON numbers the larger decides whether both expiries are right. -/
theorem sumFits_noLater_iff {id : UInt64} {data data' : Json} {m n : Number}
    (hm : data.get? "expires_after" = some (.number m))
    (hn : data'.get? "expires_after" = some (.number n)) (hmn : m.asF64 ≤ n.asF64) :
    SumFits id data m ∧ SumFits id data' n ∧ NoLater id data data' ↔
      createdAt id + n.asF64 < 2 ^ 63 := by
  rw [sumFits_iff hm, sumFits_iff hn]
  constructor
  · rintro ⟨-, h, -⟩
    exact h
  · intro h
    have h' : createdAt id + m.asF64 < 2 ^ 63 := by linarith
    exact ⟨h', h, ((sumFits_iff hm).mpr h').noLater ((sumFits_iff hn).mpr h) hmn⟩

/-! ## Durations -/

/-- Nothing wraps on the way of the lifetime `d`, and up to `2 ^ 53` milliseconds it is kept. -/
structure LifetimeExact (id : UInt64) (data : Json) (d : Duration) : Prop where
  cast : Int.bmod d.asMillis (2 ^ 64) = d.asMillis
  sum : commandExpiresAt id.toNat data = some (createdAt id + f64AsI64 (roundToF64 d.asMillis))
  whole : d.asMillis ≤ 2 ^ 53 →
    commandExpiresAt id.toNat data = some ((createdAt id : ℤ) + d.asMillis)

/-- A lifetime that is below `2 ^ 63` as a double was below it before it was rounded. -/
theorem lt_of_roundToF64_lt {k : ℕ} (h : roundToF64 k < 2 ^ 63) : k < 2 ^ 63 := by
  by_contra hk
  have hle : (2 : ℤ) ^ 63 ≤ k := by exact_mod_cast not_lt.mp hk
  have hmono := roundToF64_mono hle
  rw [roundToF64_two_pow (by norm_num)] at hmono
  omega

theorem lifetimeExact_iff {id : UInt64} {data : Json} {d : Duration}
    (h : data.get? "expires_after" = some (ofI64 d.asMillis)) :
    LifetimeExact id data d ↔ createdAt id + roundToF64 d.asMillis < 2 ^ 63 := by
  have hsum : SumFits id data _ ↔ _ := sumFits_iff h
  simp only [SumFits, Number.asF64] at hsum
  constructor
  · intro hexact
    have hfits := hexact.sum
    rw [← hexact.cast] at hfits
    have hlt := hsum.mp hfits
    rw [hexact.cast] at hlt
    exact_mod_cast hlt
  · intro hlt
    have hmillis : d.asMillis < 2 ^ 63 := lt_of_roundToF64_lt (by omega)
    have hcast : Int.bmod d.asMillis (2 ^ 64) = d.asMillis :=
      bmod_two_pow_eq_iff.mpr ⟨by omega, by omega⟩
    rw [hcast] at hsum
    have hexpiry := hsum.mpr (by exact_mod_cast hlt)
    have hkept : f64AsI64 (d.asMillis : ℤ) = d.asMillis := by
      rw [f64AsI64_intCast]
      omega
    exact ⟨hcast, hexpiry, fun hsmall => by rw [hexpiry, roundToF64_of_le hsmall, hkept]⟩

section Calls

variable (opts opts' : CallOptions) (method method' : String) (params params' : Option Json)

/-- Calls with the lifetimes `a ≤ b` have the expiries they ask for exactly when the time of the
message and `b` as a double stay below `2 ^ 63`; of two JSON numbers the same holds. -/
theorem expiry_iff (id : UInt64) :
    (∀ a b : Duration, a ≤ b →
      (LifetimeExact id ((opts.withExpiresAfter a).requestPayload method params) a ∧
        LifetimeExact id ((opts'.withExpiresAfter b).requestPayload method' params') b ∧
        NoLater id ((opts.withExpiresAfter a).requestPayload method params)
          ((opts'.withExpiresAfter b).requestPayload method' params') ↔
      createdAt id + roundToF64 b.asMillis < 2 ^ 63)) ∧
    ∀ (data data' : Json) (m n : Number), data.get? "expires_after" = some (.number m) →
      data'.get? "expires_after" = some (.number n) → m.value ≤ n.value →
      (SumFits id data m ∧ SumFits id data' n ∧ NoLater id data data' ↔
        createdAt id + n.asF64 < 2 ^ 63) := by
  refine ⟨fun a b hab => ?_, fun data data' m n hm hn hmn =>
    sumFits_noLater_iff hm hn (asF64_mono hmn)⟩
  have ha := get?_requestPayload opts a method params
  have hb := get?_requestPayload opts' b method' params'
  rw [lifetimeExact_iff ha, lifetimeExact_iff hb]
  constructor
  · rintro ⟨-, h, -⟩
    exact h
  · intro h
    have hround : roundToF64 a.asMillis ≤ roundToF64 b.asMillis :=
      roundToF64_mono (by exact_mod_cast Duration.asMillis_mono hab)
    have ha' : createdAt id + roundToF64 a.asMillis < 2 ^ 63 := by omega
    have hcast := ((lifetimeExact_iff ha).mpr ha').cast
    have hcast' := ((lifetimeExact_iff hb).mpr h).cast
    refine ⟨ha', h, ((sumFits_noLater_iff ha hb ?_).mpr ?_).2.2⟩
    · simp only [Number.asF64]
      rw [hcast, hcast']
      exact_mod_cast hround
    · simp only [Number.asF64]
      rw [hcast']
      exact_mod_cast h

end Calls

/-! ## A lifetime without end -/

namespace Forever

def options : CallOptions := ⟨none, none, none, none, none, none⟩

def lasting (d : Duration) : Json := (options.withExpiresAfter d).requestPayload "restart" none

def minute : Duration := .ofSecs 60

def hour : Duration := .ofSecs 3600

theorem minute_exact :
    LifetimeExact 0 (lasting minute) minute ∧ LifetimeExact 0 (lasting hour) hour ∧
      NoLater 0 (lasting minute) (lasting hour) :=
  ((expiry_iff options options "restart" "restart" none none 0).1 minute hour
    (.inl (by decide))).mpr (by decide)

/-- The longest lifetime is `-1` as an `i64`: the command has expired when it is made, and the
one that lasts a minute has not. -/
theorem max_expired_at_once :
    minute ≤ Duration.max ∧
      commandExpiresAt (0 : UInt64).toNat (lasting Duration.max) = some ((createdAt 0 : ℤ) - 1) ∧
      ¬ NoLater 0 (lasting minute) (lasting Duration.max) := by
  have hmax : commandExpiresAt (0 : UInt64).toNat (lasting Duration.max) =
      some ((createdAt 0 : ℤ) - 1) := by
    decide +kernel
  have hminute : commandExpiresAt (0 : UInt64).toNat (lasting minute) =
      some ((createdAt 0 : ℤ) + 60000) := by
    decide +kernel
  refine ⟨.inl (by decide), hmax, fun h => ?_⟩
  obtain ⟨x, hx, y, hy, hxy⟩ := h.1
  rw [hminute, Option.mem_some] at hx
  rw [hmax, Option.mem_some] at hy
  omega

end Forever

end Doover
