import Mathlib.Order.Monotone.Basic
import Mathlib.Data.Nat.Find

/-! # Trying again until a deadline

A loop makes one try after the other.  A try that comes off ends it; after one that does not
the loop gives up if a deadline, where there is one, has passed, and else it pauses and tries
again.  How long a try takes, and how much longer a pause is than it was asked to be, is not the
loop's to say (`Env`).  Instants and durations are natural numbers of some unit.

A loop that was left to run ends with the first try that comes off or ends at or after the
deadline (`exists_loop_iff`).  Where what is tried stays so once it comes off (`Steady`), it is
done exactly when no try fails that ends at or after the deadline (`exists_done_iff`), which
need not be the case for what comes off only after it.
-/

namespace Polling

/-- What becomes of the tries, which are numbered from zero. -/
structure Env where
  /-- Whether the try comes off, by its number and the instant at which it is begun. -/
  ok : ℕ → ℕ → Bool
  took : ℕ → ℕ → ℕ
  /-- By how much the pause after the try is longer than it should be. -/
  overslept : ℕ → ℕ

inductive Outcome where
  | done (now : ℕ)
  | gaveUp (now : ℕ)

section Loop
variable (env : Env) (pause : ℕ → ℕ) (deadline : Option ℕ)

def expired (now : ℕ) : Bool := deadline.any (decide <| · ≤ now)

/-- The loop from the try `i`, begun at `begun`, for as many tries as there is fuel. -/
def loop : ℕ → ℕ → ℕ → Option Outcome
  | 0, _, _ => none
  | fuel + 1, i, begun =>
    let now := begun + env.took i begun
    if env.ok i begun then some (.done now)
    else if expired deadline now then some (.gaveUp now)
    else loop fuel (i + 1) (now + pause i + env.overslept i)

/-- When the try `i` is begun, if the loop gets to it. -/
def begins (start : ℕ) : ℕ → ℕ
  | 0 => start
  | i + 1 => begins start i + env.took i (begins start i) + pause i + env.overslept i

def ends (start i : ℕ) : ℕ := begins env pause start i + env.took i (begins env pause start i)

/-- The try `i` comes off. -/
def succeeds (start i : ℕ) : Bool := env.ok i (begins env pause start i)

end Loop

variable {env : Env} {pause : ℕ → ℕ} {deadline : Option ℕ} {start : ℕ}

theorem expired_iff {now : ℕ} : expired deadline now = true ↔ ∃ d, deadline = some d ∧ d ≤ now := by
  rw [expired, Option.any_eq_true]
  simp only [decide_eq_true_eq]

/-! ## How the loop ends -/

/-- The loop goes on after the try `i`. -/
def GoesOn (env : Env) (pause : ℕ → ℕ) (deadline : Option ℕ) (start i : ℕ) : Prop :=
  succeeds env pause start i = false ∧ expired deadline (ends env pause start i) = false

/-- The loop ends with the try `i`. -/
def EndsWith (env : Env) (pause : ℕ → ℕ) (deadline : Option ℕ) (start i : ℕ) : Outcome → Prop
  | .done now => succeeds env pause start i = true ∧ now = ends env pause start i
  | .gaveUp now => succeeds env pause start i = false ∧
      expired deadline (ends env pause start i) = true ∧ now = ends env pause start i

theorem loop_of_goesOn {i fuel : ℕ} (h : GoesOn env pause deadline start i) :
    loop env pause deadline (fuel + 1) i (begins env pause start i) =
      loop env pause deadline fuel (i + 1) (begins env pause start (i + 1)) := by
  obtain ⟨hok, hexpired⟩ := h
  rw [succeeds] at hok
  rw [ends] at hexpired
  rw [loop, hok, hexpired]
  rfl

theorem loop_of_endsWith {i fuel : ℕ} {o : Outcome} (h : EndsWith env pause deadline start i o) :
    loop env pause deadline (fuel + 1) i (begins env pause start i) = some o := by
  cases o with
  | done now =>
    obtain ⟨hok, rfl⟩ := h
    rw [succeeds] at hok
    rw [loop, hok]
    rfl
  | gaveUp now =>
    obtain ⟨hok, hexpired, rfl⟩ := h
    rw [succeeds] at hok
    rw [ends] at hexpired
    rw [loop, hok, hexpired]
    rfl

/-- Every try ends the loop or lets it go on. -/
theorem goesOn_or_endsWith (env : Env) (pause : ℕ → ℕ) (deadline : Option ℕ) (start i : ℕ) :
    GoesOn env pause deadline start i ∨ ∃ o, EndsWith env pause deadline start i o := by
  cases hok : succeeds env pause start i with
  | true => exact Or.inr ⟨.done _, hok, rfl⟩
  | false =>
    cases hexpired : expired deadline (ends env pause start i) with
    | true => exact Or.inr ⟨.gaveUp _, hok, hexpired, rfl⟩
    | false => exact Or.inl ⟨hok, hexpired⟩

theorem exists_endsWith_of_loop {i fuel : ℕ} {o : Outcome}
    (h : loop env pause deadline fuel i (begins env pause start i) = some o) :
    ∃ n, (∀ j, i ≤ j → j < n → GoesOn env pause deadline start j) ∧
      EndsWith env pause deadline start n o := by
  induction fuel generalizing i with
  | zero => cases h
  | succ fuel ih =>
    rcases goesOn_or_endsWith env pause deadline start i with hgoes | ⟨o', hends⟩
    · rw [loop_of_goesOn hgoes] at h
      obtain ⟨n, hbefore, hends⟩ := ih h
      refine ⟨n, fun j hij hjn => ?_, hends⟩
      rcases hij.eq_or_lt with rfl | hlt
      · exact hgoes
      · exact hbefore j hlt hjn
    · cases (loop_of_endsWith hends).symm.trans h
      exact ⟨i, fun j hij hji => absurd hji (by omega), hends⟩

theorem loop_add {n fuel : ℕ} (h : ∀ j < n, GoesOn env pause deadline start j) :
    loop env pause deadline (n + fuel) 0 start =
      loop env pause deadline fuel n (begins env pause start n) := by
  induction n generalizing fuel with
  | zero => rw [Nat.zero_add]; rfl
  | succ n ih =>
    rw [Nat.add_right_comm, Nat.add_assoc, ih fun j hj => h j (by omega)]
    exact loop_of_goesOn (h n (by omega))

/-- **How the loop ends**: with the first try that does not let it go on. -/
theorem exists_loop_iff {o : Outcome} :
    (∃ fuel, loop env pause deadline fuel 0 start = some o) ↔
      ∃ n, (∀ j < n, GoesOn env pause deadline start j) ∧
        EndsWith env pause deadline start n o := by
  constructor
  · rintro ⟨fuel, h⟩
    obtain ⟨n, hbefore, hends⟩ := exists_endsWith_of_loop (i := 0) h
    exact ⟨n, fun j hj => hbefore j (by omega) hj, hends⟩
  · rintro ⟨n, hbefore, hends⟩
    exact ⟨n + 1, (loop_add hbefore).trans (loop_of_endsWith hends)⟩

/-! ## What stays so once it comes off -/

/-- After a try that comes off every later one would. -/
def Steady (env : Env) (pause : ℕ → ℕ) (start : ℕ) : Prop :=
  ∀ i j, i ≤ j → succeeds env pause start i = true → succeeds env pause start j = true

/-- **When the loop is done**: some try comes off, and none fails at or after the deadline. -/
theorem exists_done_iff (h : Steady env pause start) :
    (∃ fuel now, loop env pause deadline fuel 0 start = some (.done now)) ↔
      (∃ i, succeeds env pause start i = true) ∧
        ∀ i, succeeds env pause start i = false →
          expired deadline (ends env pause start i) = false := by
  rw [exists_comm]
  simp only [exists_loop_iff]
  constructor
  · rintro ⟨now, n, hbefore, hok, -⟩
    refine ⟨⟨n, hok⟩, fun i hfails => (hbefore i ?_).2⟩
    by_contra hle
    exact absurd (h n i (by omega) hok) (by rw [hfails]; exact Bool.false_ne_true)
  · rintro ⟨hsome, hfails⟩
    refine ⟨_, Nat.find hsome, fun j hj => ?_, Nat.find_spec hsome, rfl⟩
    have hj := Bool.not_eq_true _ ▸ Nat.find_min hsome hj
    exact ⟨hj, hfails j hj⟩

/-- When it gives up: a try fails at or after the deadline. -/
theorem exists_gaveUp_iff (h : Steady env pause start) :
    (∃ fuel now, loop env pause deadline fuel 0 start = some (.gaveUp now)) ↔
      ∃ i, succeeds env pause start i = false ∧
        expired deadline (ends env pause start i) = true := by
  rw [exists_comm]
  simp only [exists_loop_iff]
  constructor
  · rintro ⟨now, n, -, hok, hexpired, -⟩
    exact ⟨n, hok, hexpired⟩
  · intro hsome
    obtain ⟨hok, hexpired⟩ := Nat.find_spec hsome
    refine ⟨_, Nat.find hsome, fun j hj => ?_, hok, hexpired, rfl⟩
    -- an earlier try that came off would have made this one come off
    have hj' : succeeds env pause start j = false := by
      rw [← Bool.not_eq_true]
      exact fun hj' => absurd (h j _ hj.le hj') (by rw [hok]; exact Bool.false_ne_true)
    exact ⟨hj', Bool.not_eq_true _ ▸ fun hj'' => Nat.find_min hsome hj ⟨hj', hj''⟩⟩

/-! ## Time -/

theorem le_begins (env : Env) (hpause : ∀ i, 0 < pause i) (start i : ℕ) :
    start + i ≤ begins env pause start i := by
  induction i with
  | zero => exact Nat.le_refl start
  | succ i ih =>
    have := hpause i
    rw [begins]
    omega

theorem begins_mono (pause : ℕ → ℕ) {i j : ℕ} (h : i ≤ j) :
    begins env pause start i ≤ begins env pause start j := by
  refine monotone_nat_of_le_succ (fun k => ?_) h
  rw [begins]
  omega

/-- Every deadline passes. -/
theorem exists_expired (env : Env) (hpause : ∀ i, 0 < pause i) (start d : ℕ) :
    ∃ i, expired (some d) (ends env pause start i) = true := by
  refine ⟨d, expired_iff.mpr ⟨d, rfl, ?_⟩⟩
  have := le_begins env hpause start d
  rw [ends]
  omega

/-- With a deadline the loop ends. -/
theorem exists_loop (env : Env) (hpause : ∀ i, 0 < pause i) (start d : ℕ) :
    ∃ o fuel, loop env pause (some d) fuel 0 start = some o := by
  classical
  have hsome : ∃ i, ¬ GoesOn env pause (some d) start i := by
    obtain ⟨i, hexpired⟩ := exists_expired env hpause start d
    exact ⟨i, fun h => absurd (h.2.symm.trans hexpired) Bool.false_ne_true⟩
  rcases goesOn_or_endsWith env pause (some d) start (Nat.find hsome) with hgoes | ⟨o, hends⟩
  · exact absurd hgoes (Nat.find_spec hsome)
  · exact ⟨o, exists_loop_iff.mpr
      ⟨_, fun j hj => Classical.not_not.mp (Nat.find_min hsome hj), hends⟩⟩

end Polling
