import Mathlib.Data.List.Basic

/-! # Backtracking patterns

Patterns over an arbitrary alphabet, with numbered groups, as backtracking matchers read
them.  `ways` lists every way in which a pattern matches a prefix, in the order in which a
matcher tries them: a repetition takes as much as it can before it gives anything back, and
an optional part is matched before it is left out.  A full match is the first way that
leaves nothing over (`fullmatch`), and its groups are those of that way.

What follows a pattern is a continuation: `first` tries it after one way after the other.
Its equations take a pattern apart, and a repetition need not be tried more than once when
the continuation fails on what it could give back (`first_plus_of_stuck`), or when it
succeeds at the end of the input (`first_plus_of_forall`).
-/

/-- A pattern. -/
inductive Regex (α : Type) where
  | literal (l : List α)
  /-- One or more of a class, as many as possible. -/
  | plus (p : α → Bool)
  | seq (q r : Regex α)
  /-- `q?`. -/
  | opt (q : Regex α)
  | group (i : ℕ) (q : Regex α)

namespace Regex
variable {α β : Type}

/-- A way to match a prefix: what is matched, what is left, and the groups on the way. -/
structure Way (α : Type) where
  matched : List α
  rest : List α
  groups : List (ℕ × List α)

/-- One way after the other. -/
def Way.append (w v : Way α) : Way α := ⟨w.matched ++ v.matched, v.rest, w.groups ++ v.groups⟩

theorem Way.append_assoc (u v w : Way α) : (u.append v).append w = u.append (v.append w) := by
  rw [append, append, append, append, List.append_assoc, List.append_assoc]

/-- The ways to match one or more of a class, longest first. -/
def waysPlus (p : α → Bool) : List α → List (Way α)
  | [] => []
  | c :: s =>
    if p c then (waysPlus p s).map (Way.append ⟨[c], s, []⟩) ++ [⟨[c], s, []⟩] else []

variable [DecidableEq α]

/-- The ways to match a prefix, in the order in which they are tried. -/
def ways : Regex α → List α → List (Way α)
  | literal l, s => if l <+: s then [⟨l, s.drop l.length, []⟩] else []
  | plus p, s => waysPlus p s
  | seq q r, s => (ways q s).flatMap fun w => (ways r w.rest).map w.append
  | opt q, s => ways q s ++ [⟨[], s, []⟩]
  | group i q, s => (ways q s).map fun w => { w with groups := w.groups ++ [(i, w.matched)] }

/-- The groups of the first way that leaves nothing over. -/
def fullmatch (r : Regex α) (s : List α) : Option (List (ℕ × List α)) :=
  ((r.ways s).find? fun w => w.rest.isEmpty).map Way.groups

/-- The first result of a continuation, over the ways. -/
def first (r : Regex α) (s : List α) (k : Way α → Option β) : Option β := (r.ways s).findSome? k

omit [DecidableEq α] in
theorem findSome?_cons_eq_or (f : α → Option β) (a : α) (l : List α) :
    (a :: l).findSome? f = (f a).or (l.findSome? f) := by
  rw [List.findSome?_cons]
  cases f a with
  | none => exact Option.none_or.symm
  | some b => exact Option.some_or.symm

section First
variable (k : Way α → Option β)

theorem first_seq (q r : Regex α) (s : List α) :
    first (seq q r) s k = first q s fun w => first r w.rest fun v => k (w.append v) := by
  rw [first, first, ways]
  induction q.ways s with
  | nil => rfl
  | cons w ws ih =>
    rw [List.flatMap_cons, List.findSome?_append, ih, List.findSome?_map,
      findSome?_cons_eq_or, first]
    rfl

theorem first_opt (q : Regex α) (s : List α) :
    first (opt q) s k = (first q s k).or (k ⟨[], s, []⟩) := by
  rw [first, first, ways, List.findSome?_append, List.findSome?_singleton]

theorem first_group (i : ℕ) (q : Regex α) (s : List α) :
    first (group i q) s k =
      first q s fun w => k { w with groups := w.groups ++ [(i, w.matched)] } := by
  rw [first, first, ways, List.findSome?_map]
  rfl

theorem first_literal (l s : List α) :
    first (literal l) (l ++ s) k = k ⟨l, s, []⟩ := by
  rw [first, ways, if_pos (List.prefix_append l s), List.drop_left, List.findSome?_singleton]

theorem first_literal_of_not_prefix {l s : List α} (h : ¬ l <+: s) :
    first (literal l) s k = none := by
  rw [first, ways, if_neg h, List.findSome?_nil]

theorem first_plus_cons (p : α → Bool) (c : α) (s : List α) :
    first (plus p) (c :: s) k =
      if p c then (first (plus p) s fun w => k (.append ⟨[c], s, []⟩ w)).or (k ⟨[c], s, []⟩)
      else none := by
  rw [first, first, ways, ways, waysPlus]
  split
  · rw [List.findSome?_append, List.findSome?_map, List.findSome?_singleton]
    rfl
  · rw [List.findSome?_nil]

theorem first_plus_nil (p : α → Bool) : first (plus p) [] k = none := rfl

end First

/-- **Nothing to give back.**  When the continuation fails on every rest that starts with
one of the class, only the longest way is of use. -/
theorem first_plus_of_stuck {p : α → Bool} {k : Way α → Option β}
    (hstuck : ∀ w : Way α, ∀ c ∈ w.rest.head?, p c = true → k w = none) (s : List α) :
    first (plus p) s k =
      if s.takeWhile p = [] then none else k ⟨s.takeWhile p, s.dropWhile p, []⟩ := by
  induction s generalizing k with
  | nil => rw [first_plus_nil, List.takeWhile_nil, if_pos rfl]
  | cons c s ih =>
    rw [first_plus_cons]
    by_cases hc : p c = true
    · rw [if_pos hc, List.takeWhile_cons_of_pos hc, List.dropWhile_cons_of_pos hc,
        if_neg (List.cons_ne_nil c _), ih fun w => hstuck (.append ⟨[c], s, []⟩ w)]
      cases s with
      | nil => rfl
      | cons d s =>
        by_cases hd : p d = true
        · rw [List.takeWhile_cons_of_pos hd, if_neg (List.cons_ne_nil d _),
            hstuck ⟨[c], d :: s, []⟩ d rfl hd, Option.or_none]
          rfl
        · rw [List.takeWhile_cons_of_neg hd, List.dropWhile_cons_of_neg hd, if_pos rfl,
            Option.none_or]
    · rw [if_neg hc, List.takeWhile_cons_of_neg hc, if_pos rfl]

/-- **All of it.**  When the rest of the input is of the class and the continuation succeeds
after it, the repetition takes it all. -/
theorem first_plus_of_forall {p : α → Bool} {k : Way α → Option β} {s : List α} (hne : s ≠ [])
    (hp : ∀ c ∈ s, p c = true) {b : β} (hk : k ⟨s, [], []⟩ = some b) :
    first (plus p) s k = some b := by
  induction s generalizing k with
  | nil => exact absurd rfl hne
  | cons c s ih =>
    obtain ⟨hc, hs⟩ := List.forall_mem_cons.mp hp
    rw [first_plus_cons, if_pos hc]
    by_cases hnil : s = []
    · subst hnil
      rw [first_plus_nil, Option.none_or, hk]
    · rw [ih hnil hs hk, Option.some_or]

/-- The continuation of a full match. -/
def atEnd (w : Way α) : Option (List (ℕ × List α)) :=
  if w.rest.isEmpty then some w.groups else none

theorem fullmatch_eq_first (r : Regex α) (s : List α) : r.fullmatch s = r.first s atEnd := by
  rw [fullmatch, first]
  induction r.ways s with
  | nil => rfl
  | cons w ws ih =>
    rw [List.find?_cons, findSome?_cons_eq_or, atEnd, ← ih]
    cases w.rest.isEmpty <;> rfl

end Regex
