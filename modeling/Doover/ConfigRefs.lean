import Doover.Backtracking
import Doover.Binary64
import Doover.Events
import Mathlib.Data.List.TakeWhile

/-! # References into the deployment config

A string of a UI schema may refer to the deployment config: `$config.app().KEY`, with a type
and a default after it, each behind a colon.  `resolve_single_ref` scans such a string by
hand, in the place of the regular expression

    \$config\.app\(\)\.(\w+)(?::(\w+))?(?::(.+))?

and a string that does not match stays as it is.  The scanner reads a type behind the first
colon and never gives it up.  The expression does: when a default alone follows the key,
as in `KEY:1.5`, its type group is left out.  So the two agree on all strings but those
(`resolveSingleRef_eq_iff`).
-/

namespace Doover
open Json

/-! ## Numbers in text -/

/-- A sign or none, and at least one digit. -/
def parseSigned (s : List Char) : Option ℤ :=
  match s with
  | '-' :: digits => if digits.isEmpty then none else (parseDigits 0 digits).map fun n => -(n : ℤ)
  | '+' :: digits => if digits.isEmpty then none else (parseDigits 0 digits).map Nat.cast
  | digits => if digits.isEmpty then none else (parseDigits 0 digits).map Nat.cast

/-- `str::parse::<i64>`. -/
def parseI64 (s : List Char) : Option Number :=
  (parseSigned s).bind fun n =>
    if h : -2 ^ 63 ≤ n ∧ n < 2 ^ 63 then some (.int n ⟨h.1, by omega⟩) else none

/-- `str::parse::<f64>`: a sign or none, then `inf`, `infinity`, `nan` in any case, or digits
with a point among or around them and an exponent behind. -/
def parseF64 (s : List Char) : Option Binary64 :=
  let negative := s.head? = some '-'
  let s := if s.head? = some '-' ∨ s.head? = some '+' then s.tail else s
  let word := s.map Char.toLower
  if word = "nan".toList then some .nan
  else if word = "inf".toList ∨ word = "infinity".toList then some (.infinity negative)
  else
    let whole := s.takeWhile Char.isDigit
    let rest := s.dropWhile Char.isDigit
    let fraction := if rest.head? = some '.' then rest.tail.takeWhile Char.isDigit else []
    let rest := if rest.head? = some '.' then rest.tail.dropWhile Char.isDigit else rest
    let exponent :=
      match rest with
      | [] => some 0
      | c :: digits => if c = 'e' ∨ c = 'E' then parseSigned digits else none
    if whole.isEmpty && fraction.isEmpty then none
    else do
      let exponent ← exponent
      let digits ← parseDigits 0 (whole ++ fraction)
      let value : ℚ := digits * 10 ^ (exponent - fraction.length)
      return .round (if negative then -value else value)

/-- `Number::from_f64`: none but a finite double is a JSON number. -/
def Number.fromF64 : Binary64 → Option Number
  | .finite x h => some (.float ⟨x, h⟩)
  | _ => none

/-! ## A reference and what it resolves to -/

/-- The parts of a reference. -/
structure ConfigRef where
  key : List Char
  typeHint : Option (List Char)
  default : Option (List Char)

section Resolve
variable (valueToString : Json → String)

/-- Python's `str()`; numbers, arrays and objects are written by `Value`'s `to_string`. -/
def pythonStringOf : Json → String
  | .string s => s
  | .bool true => "True"
  | .bool false => "False"
  | .null => "None"
  | other => valueToString other

/-- Of the letters of `true` and `yes` no other character is an uppercase form, so lowercase
letters beyond ASCII make no difference here. -/
def coerceBoolean : Json → Json
  | .bool b => .bool b
  | other =>
    let s := (pythonStringOf valueToString other).toList.map Char.toLower
    .bool (s = "true".toList || s = "1".toList || s = "yes".toList)

def coerceNumber : Json → Json
  | .number n => .number n
  | other =>
    let s := (pythonStringOf valueToString other).toList
    if s.contains '.' then ((parseF64 s).bind Number.fromF64).elim other .number
    else (parseI64 s).elim other .number

def coerce (typeHint : Option (List Char)) (raw : Json) : Json :=
  if typeHint = some "boolean".toList then coerceBoolean valueToString raw
  else if typeHint = some "number".toList then coerceNumber valueToString raw
  else if typeHint = some "string".toList then .string (pythonStringOf valueToString raw)
  else raw

/-- The value under the key, unless it is null, or else the default. -/
def ConfigRef.raw (ref : ConfigRef) (config : Json) : Option Json :=
  match config.get? (String.ofList ref.key) with
  | some .null | none => ref.default.map fun d => .string (String.ofList d)
  | some v => some v

/-- The second half of `resolve_single_ref`. -/
def ConfigRef.resolve (ref : ConfigRef) (config : Json) : Json :=
  (ref.raw config).elim .null (coerce valueToString ref.typeHint)

/-! ## The scanner -/

def isWord (c : Char) : Bool := c.isAlphanum || c = '_'

def CONFIG_PREFIX : List Char := "$config.app().".toList

/-- The default behind a key or a type: none at the end, or all that follows a colon. -/
def splitDefault : List Char → Option (Option (List Char))
  | [] => some none
  | ':' :: d => if d.isEmpty then none else some (some d)
  | _ => none

/-- What follows the first colon, if it is scanned to its end. -/
def splitTypeHint (t : List Char) : Option (List Char × Option (List Char)) :=
  let th := t.takeWhile isWord
  if th.isEmpty then none else (splitDefault (t.dropWhile isWord)).map fun d => (th, d)

/-- What follows the key, if it is scanned to its end. -/
def splitTail (key : List Char) : List Char → Option ConfigRef
  | [] => some ⟨key, none, none⟩
  | ':' :: t => (splitTypeHint t).map fun typed => ⟨key, some typed.1, typed.2⟩
  | _ => none

/-- What follows the prefix, if it is scanned to its end. -/
def splitRef (rest : List Char) : Option ConfigRef :=
  let key := rest.takeWhile isWord
  if key.isEmpty then none else splitTail key (rest.dropWhile isWord)

def resolveSingleRef (s : String) (config : Json) : Json :=
  if CONFIG_PREFIX <+: s.toList then
    (splitRef (s.toList.drop CONFIG_PREFIX.length)).elim (.string s)
      (ConfigRef.resolve valueToString · config)
  else .string s

/-! ## The regular expression -/

/-- `(?::(\w+))?`, the classes being those of ASCII strings. -/
def TYPE_PART : Regex Char := .opt (.seq (.literal [':']) (.group 2 (.plus isWord)))

/-- `(?::(.+))?` -/
def DEFAULT_PART : Regex Char := .opt (.seq (.literal [':']) (.group 3 (.plus (· ≠ '\n'))))

def CONFIG_REF : Regex Char :=
  .seq (.literal CONFIG_PREFIX) (.seq (.group 1 (.plus isWord)) (.seq TYPE_PART DEFAULT_PART))

def ConfigRef.ofGroups (groups : List (ℕ × List Char)) : ConfigRef :=
  ⟨(groups.lookup 1).getD [], groups.lookup 2, groups.lookup 3⟩

/-- What the expression makes of a string. -/
def resolveByPattern (s : String) (config : Json) : Json :=
  (CONFIG_REF.fullmatch s.toList).elim (.string s)
    fun groups => (ConfigRef.ofGroups groups).resolve valueToString config

end Resolve

/-! ## Full matches -/

def optGroup (i : ℕ) (captured : Option (List Char)) : List (ℕ × List Char) :=
  captured.elim [] fun l => [(i, l)]

/-- The groups of a reference. -/
def ConfigRef.groups (ref : ConfigRef) : List (ℕ × List Char) :=
  (1, ref.key) :: optGroup 2 ref.typeHint ++ optGroup 3 ref.default

theorem ConfigRef.ofGroups_groups (ref : ConfigRef) : ofGroups ref.groups = ref := by
  cases ref with
  | mk key typeHint default => cases typeHint <;> cases default <;> rfl

/-- A default alone behind the key. -/
def splitAlone (key : List Char) : List Char → Option ConfigRef
  | ':' :: t => if t.isEmpty then none else some ⟨key, none, some t⟩
  | _ => none

/-- What follows the prefix, as the expression takes it apart. -/
def matchRef (rest : List Char) : Option ConfigRef :=
  let key := rest.takeWhile isWord
  if key.isEmpty then none
  else (splitTail key (rest.dropWhile isWord)).or (splitAlone key (rest.dropWhile isWord))

theorem splitDefault_colon {d : List Char} (h : d ≠ []) : splitDefault (':' :: d) = some (some d) :=
  if_neg fun hd => h (List.isEmpty_iff.mp hd)

theorem splitDefault_of_ne {c : Char} {d : List Char} (h : c ≠ ':') :
    splitDefault (c :: d) = none := by
  rw [splitDefault.eq_def]
  split
  · contradiction
  · exact absurd (List.cons.inj ‹_›).1 h
  · rfl

theorem splitTail_of_ne (key : List Char) {c : Char} {t : List Char} (h : c ≠ ':') :
    splitTail key (c :: t) = none := by
  rw [splitTail.eq_def]
  split
  · contradiction
  · exact absurd (List.cons.inj ‹_›).1 h
  · rfl

theorem splitAlone_of_ne (key : List Char) {c : Char} {t : List Char} (h : c ≠ ':') :
    splitAlone key (c :: t) = none := by
  rw [splitAlone.eq_def]
  split
  · exact absurd (List.cons.inj ‹_›).1 h
  · rfl

theorem ne_colon_of_isWord {c : Char} (h : isWord c = true) : c ≠ ':' := by
  rintro rfl
  cases h

section Fullmatch
open Regex

/-- The end of a match, from a way on. -/
def matchDefault (w : Way Char) : Option (List (ℕ × List Char)) :=
  first DEFAULT_PART w.rest fun v => atEnd (w.append v)

def matchType (w : Way Char) : Option (List (ℕ × List Char)) :=
  first TYPE_PART w.rest fun v => matchDefault (w.append v)

theorem first_colon_cons {β : Type} (q : Regex Char) (t : List Char) (k : Way Char → Option β) :
    first (.seq (.literal [':']) q) (':' :: t) k =
      first q t fun v => k (.append ⟨[':'], t, []⟩ v) := by
  rw [first_seq]
  exact first_literal _ [':'] t

theorem first_colon_of_ne {β : Type} (q : Regex Char) {u : List Char}
    (hu : ∀ t, u ≠ ':' :: t) (k : Way Char → Option β) :
    first (.seq (.literal [':']) q) u k = none := by
  rw [first_seq]
  refine first_literal_of_not_prefix _ fun hprefix => ?_
  obtain ⟨t, rfl⟩ := hprefix
  exact hu t rfl

theorem matchDefault_of_ne {w : Way Char} {c : Char} (hc : c ∈ w.rest.head?) (hne : c ≠ ':') :
    matchDefault w = none := by
  cases w with
  | mk matched rest groups =>
    cases rest with
    | nil => cases hc
    | cons b u =>
      obtain rfl := Option.some.inj hc
      rw [matchDefault, DEFAULT_PART, first_opt,
        first_colon_of_ne _ fun t ht => hne (List.cons.inj ht).1]
      rfl

/-- **The default part.**  Behind a colon it takes all there is. -/
theorem matchDefault_eq (w : Way Char) (hline : ∀ c ∈ w.rest, c ≠ '\n') :
    matchDefault w = (splitDefault w.rest).map fun d => w.groups ++ optGroup 3 d := by
  cases w with
  | mk matched rest groups =>
    cases rest with
    | nil =>
      rw [matchDefault, DEFAULT_PART, first_opt, first_colon_of_ne _ fun t ht => by cases ht]
      rfl
    | cons c d =>
      by_cases hc : c = ':'
      · subst hc
        rw [matchDefault, DEFAULT_PART, first_opt, first_colon_cons, first_group]
        by_cases hd : d = []
        · subst hd
          rfl
        · have hall : ∀ c ∈ d, decide (c ≠ '\n') = true :=
            fun c hc => decide_eq_true (hline c (List.mem_cons_of_mem _ hc))
          rw [splitDefault_colon hd]
          exact Option.or_eq_some_iff.mpr (.inl (first_plus_of_forall hd hall rfl))
      · rw [matchDefault_of_ne rfl hc, splitDefault_of_ne hc]
        rfl

theorem matchType_of_ne {w : Way Char} {c : Char} (hc : c ∈ w.rest.head?) (hne : c ≠ ':') :
    matchType w = none := by
  cases w with
  | mk matched rest groups =>
    cases rest with
    | nil => cases hc
    | cons b u =>
      obtain rfl := Option.some.inj hc
      rw [matchType, TYPE_PART, first_opt,
        first_colon_of_ne _ fun t ht => hne (List.cons.inj ht).1, Option.none_or]
      exact matchDefault_of_ne rfl hne

theorem matchType_nil (matched : List Char) (groups : List (ℕ × List Char)) :
    matchType ⟨matched, [], groups⟩ = some groups := by
  have hnil : ∀ t, ([] : List Char) ≠ ':' :: t := fun t => (List.cons_ne_nil ':' t).symm
  rw [matchType, TYPE_PART, first_opt, first_colon_of_ne _ hnil, Option.none_or,
    matchDefault_eq]
  · exact congrArg some ((List.append_nil _).trans (List.append_nil groups))
  · exact fun c hc => absurd hc List.not_mem_nil

/-- **The type part.**  A word behind the colon is the type, if the match ends so; else what
is behind the colon is the default. -/
theorem matchType_eq (matched key : List Char) {rest : List Char}
    (hline : ∀ c ∈ rest, c ≠ '\n') :
    matchType ⟨matched, rest, [(1, key)]⟩ =
      ((splitTail key rest).or (splitAlone key rest)).map ConfigRef.groups := by
  cases rest with
  | nil => exact matchType_nil matched [(1, key)]
  | cons c t =>
    by_cases hc : c = ':'
    · subst hc
      have ht : ∀ c ∈ t, c ≠ '\n' := fun c hc => hline c (List.mem_cons_of_mem _ hc)
      have hskip : (Way.append ⟨matched, ':' :: t, [(1, key)]⟩ ⟨[], ':' :: t, []⟩).rest =
          ':' :: t := rfl
      rw [matchType, TYPE_PART, first_opt, first_colon_cons, first_group, first_plus_of_stuck,
        Option.map_or, splitTail, splitAlone, Option.map_map]
      · congr 1
        · rw [splitTypeHint]
          by_cases hth : t.takeWhile isWord = []
          · rw [if_pos hth, if_pos (List.isEmpty_iff.mpr hth)]
            rfl
          · rw [if_neg hth, if_neg fun h => hth (List.isEmpty_iff.mp h), matchDefault_eq,
              Option.map_map]
            · rfl
            · exact fun c hc => ht c ((List.dropWhile_suffix isWord).subset hc)
        · rw [matchDefault_eq _ hline, hskip]
          by_cases hnil : t = []
          · subst hnil
            rfl
          · rw [splitDefault_colon hnil, if_neg fun h => hnil (List.isEmpty_iff.mp h)]
            rfl
      · exact fun w c hc hword => matchDefault_of_ne hc (ne_colon_of_isWord hword)
    · rw [matchType_of_ne rfl hc, splitTail_of_ne key hc, splitAlone_of_ne key hc]
      rfl

/-- **Full matches.**  Behind the prefix and the key comes what the two parts take. -/
theorem fullmatch_eq {rest : List Char} (hline : ∀ c ∈ rest, c ≠ '\n') :
    CONFIG_REF.fullmatch (CONFIG_PREFIX ++ rest) = (matchRef rest).map ConfigRef.groups := by
  have hparts : CONFIG_REF.fullmatch (CONFIG_PREFIX ++ rest) =
      first (.plus isWord) rest fun w =>
        matchType ⟨CONFIG_PREFIX ++ w.matched, w.rest, w.groups ++ [(1, w.matched)]⟩ := by
    rw [fullmatch_eq_first, CONFIG_REF, first_seq]
    refine (first_literal _ CONFIG_PREFIX rest).trans ?_
    rw [first_seq, first_group]
    refine congrArg (first _ rest) (funext fun w => ?_)
    rw [first_seq, matchType]
    refine congrArg (first _ w.rest) (funext fun v => ?_)
    rw [matchDefault]
    refine congrArg (first _ v.rest) (funext fun u => ?_)
    simp only [Way.append, atEnd, List.append_assoc, List.nil_append]
  rw [hparts, first_plus_of_stuck, matchRef]
  · by_cases hkey : rest.takeWhile isWord = []
    · rw [if_pos hkey, if_pos (List.isEmpty_iff.mpr hkey)]
      rfl
    · rw [if_neg hkey, if_neg fun h => hkey (List.isEmpty_iff.mp h)]
      exact matchType_eq _ _ fun c hc => hline c ((List.dropWhile_suffix isWord).subset hc)
  · exact fun w c hc hword => matchType_of_ne hc (ne_colon_of_isWord hword)

theorem fullmatch_of_not_prefix {s : List Char} (h : ¬ CONFIG_PREFIX <+: s) :
    CONFIG_REF.fullmatch s = none := by
  rw [fullmatch_eq_first, CONFIG_REF, first_seq]
  exact first_literal_of_not_prefix _ h

end Fullmatch

/-! ## Where the scanner and the expression part -/

/-- ASCII characters, and no line break. -/
def IsAsciiLine (s : String) : Prop := ∀ c ∈ s.toList, c.toNat < 128 ∧ c ≠ '\n'

/-- A word behind a colon that ends there, or has a default behind it. -/
def IsTyped (t : List Char) : Prop :=
  ∃ th, th ≠ [] ∧ (∀ c ∈ th, isWord c = true) ∧ (t = th ∨ ∃ d, d ≠ [] ∧ t = th ++ ':' :: d)

/-- A reference with a default alone behind its key. -/
structure DefaultAlone (s key t : List Char) : Prop where
  eq : s = CONFIG_PREFIX ++ (key ++ ':' :: t)
  key_ne : key ≠ []
  key_word : ∀ c ∈ key, isWord c = true
  ne : t ≠ []
  not_typed : ¬ IsTyped t

/-- A word ends where something else starts. -/
theorem span_word {th u : List Char} (hth : ∀ c ∈ th, isWord c = true)
    (hu : ∀ c ∈ u.head?, isWord c = false) :
    (th ++ u).takeWhile isWord = th ∧ (th ++ u).dropWhile isWord = u := by
  rw [List.takeWhile_append_of_pos hth, List.dropWhile_append_of_pos hth]
  cases u with
  | nil => exact ⟨List.append_nil th, rfl⟩
  | cons c u =>
    have hc : ¬ isWord c = true := Bool.eq_false_iff.mp (hu c rfl)
    rw [List.takeWhile_cons_of_neg hc, List.dropWhile_cons_of_neg hc, List.append_nil]
    exact ⟨rfl, rfl⟩

theorem splitDefault_isSome_iff {u : List Char} :
    (splitDefault u).isSome = true ↔ u = [] ∨ ∃ d, d ≠ [] ∧ u = ':' :: d := by
  cases u with
  | nil => exact iff_of_true rfl (.inl rfl)
  | cons c d =>
    by_cases hc : c = ':'
    · subst hc
      by_cases hd : d = []
      · subst hd
        refine iff_of_false Bool.false_ne_true ?_
        rintro (h | ⟨d, hd, h⟩)
        · cases h
        · exact hd (List.cons.inj h).2.symm
      · rw [splitDefault_colon hd]
        exact iff_of_true rfl (.inr ⟨d, hd, rfl⟩)
    · rw [splitDefault_of_ne hc]
      refine iff_of_false Bool.false_ne_true ?_
      rintro (h | ⟨d, -, h⟩)
      · cases h
      · exact hc (List.cons.inj h).1

theorem splitTypeHint_isSome_iff {t : List Char} :
    (splitTypeHint t).isSome = true ↔ IsTyped t := by
  rw [splitTypeHint]
  constructor
  · intro h
    split at h
    · cases h
    · rename_i hth
      rw [Option.isSome_map, splitDefault_isSome_iff] at h
      refine ⟨t.takeWhile isWord, fun hnil => hth (List.isEmpty_iff.mpr hnil),
        fun c hc => List.mem_takeWhile_imp hc, ?_⟩
      have happend := List.takeWhile_append_dropWhile (p := isWord) (l := t)
      rcases h with h | ⟨d, hd, h⟩
      · left
        rwa [h, List.append_nil, eq_comm] at happend
      · exact .inr ⟨d, hd, by rw [← h, happend]⟩
  · rintro ⟨th, hne, hword, htail⟩
    obtain ⟨u, rfl, hu, hdefault⟩ : ∃ u, t = th ++ u ∧ (∀ c ∈ u.head?, isWord c = false) ∧
        (splitDefault u).isSome = true := by
      rcases htail with rfl | ⟨d, hd, rfl⟩
      · exact ⟨[], (List.append_nil t).symm, fun c hc => absurd hc (Option.not_mem_none c), rfl⟩
      · refine ⟨':' :: d, rfl, fun c hc => ?_, splitDefault_isSome_iff.mpr (.inr ⟨d, hd, rfl⟩)⟩
        obtain rfl := Option.some.inj hc
        rfl
    obtain ⟨htake, hdrop⟩ := span_word hword hu
    rw [htake, hdrop, if_neg fun h => hne (List.isEmpty_iff.mp h), Option.isSome_map, hdefault]

theorem splitTypeHint_eq_none_iff {t : List Char} : splitTypeHint t = none ↔ ¬ IsTyped t := by
  rw [← splitTypeHint_isSome_iff, Bool.not_eq_true, Option.isSome_eq_false_iff,
    Option.isNone_iff_eq_none]

theorem splitAlone_eq_some_iff {key u : List Char} {ref : ConfigRef} :
    splitAlone key u = some ref ↔ ∃ t, t ≠ [] ∧ u = ':' :: t ∧ ref = ⟨key, none, some t⟩ := by
  constructor
  · intro h
    cases u with
    | nil => cases h
    | cons c t =>
      by_cases hc : c = ':'
      · subst hc
        rw [splitAlone] at h
        split at h
        · cases h
        · rename_i ht
          exact ⟨t, fun hnil => ht (List.isEmpty_iff.mpr hnil), rfl, (Option.some.inj h).symm⟩
      · rw [splitAlone_of_ne key hc] at h
        cases h
  · rintro ⟨t, ht, rfl, rfl⟩
    exact if_neg fun h => ht (List.isEmpty_iff.mp h)

/-- What the expression makes of a string that the scanner gives up on. -/
theorem matchRef_of_splitRef_eq_none {rest : List Char} {ref : ConfigRef}
    (hscan : splitRef rest = none) (h : matchRef rest = some ref) :
    rest.takeWhile isWord ≠ [] ∧
      splitTail (rest.takeWhile isWord) (rest.dropWhile isWord) = none ∧
      splitAlone (rest.takeWhile isWord) (rest.dropWhile isWord) = some ref := by
  rw [splitRef] at hscan
  rw [matchRef] at h
  split at h
  · cases h
  · rename_i hempty
    rw [if_neg hempty] at hscan
    rw [hscan, Option.none_or] at h
    exact ⟨fun hnil => hempty (List.isEmpty_iff.mpr hnil), hscan, h⟩

/-- The scanner gives up on the string, and the expression does not. -/
theorem defaultAlone_iff {rest key t : List Char} :
    DefaultAlone (CONFIG_PREFIX ++ rest) key t ↔
      splitRef rest = none ∧ matchRef rest = some ⟨key, none, some t⟩ := by
  constructor
  · rintro ⟨heq, hkey, hword, ht, htyped⟩
    obtain rfl := List.append_cancel_left heq
    have hcolon : ∀ c ∈ (':' :: t).head?, isWord c = false := by
      intro c hc
      obtain rfl := Option.some.inj hc
      rfl
    obtain ⟨htake, hdrop⟩ := span_word hword hcolon
    have hempty : ¬ key.isEmpty = true := fun h => hkey (List.isEmpty_iff.mp h)
    have htail : splitTail key (':' :: t) = none := by
      rw [splitTail, Option.map_eq_none_iff]
      exact splitTypeHint_eq_none_iff.mpr htyped
    rw [splitRef, matchRef, htake, hdrop, if_neg hempty, if_neg hempty, htail, splitAlone,
      if_neg fun h => ht (List.isEmpty_iff.mp h)]
    exact ⟨rfl, rfl⟩
  · rintro ⟨hscan, hmatch⟩
    obtain ⟨hempty, hdrop, href⟩ := matchRef_of_splitRef_eq_none hscan hmatch
    obtain ⟨u, hu, hcolon, hparts⟩ := splitAlone_eq_some_iff.mp href
    cases hparts
    have happend := List.takeWhile_append_dropWhile (p := isWord) (l := rest)
    rw [hcolon] at hdrop happend
    rw [splitTail, Option.map_eq_none_iff] at hdrop
    exact ⟨congrArg (CONFIG_PREFIX ++ ·) happend.symm, hempty,
      fun c hc => List.mem_takeWhile_imp hc, hu, splitTypeHint_eq_none_iff.mp hdrop⟩

/-- What the scanner reads, the expression reads so too. -/
theorem matchRef_of_splitRef {rest : List Char} {ref : ConfigRef} (h : splitRef rest = some ref) :
    matchRef rest = some ref := by
  rw [splitRef] at h
  rw [matchRef]
  split at h
  · cases h
  · rename_i hempty
    rw [if_neg hempty, h, Option.some_or]

section Resolve
variable (valueToString : Json → String)

/-- A default alone resolves to the config's value, uncoerced, or to itself. -/
theorem resolve_alone_eq_iff {s : String} {key t : List Char} (h : DefaultAlone s.toList key t)
    (config : Json) :
    ConfigRef.resolve valueToString ⟨key, none, some t⟩ config = .string s ↔
      config.get? (String.ofList key) = some (.string s) := by
  have hne : Json.string (String.ofList t) ≠ .string s := by
    intro ht
    have hlength := congrArg List.length h.eq
    rw [← Json.string.inj ht, String.toList_ofList, List.length_append, List.length_append,
      List.length_cons] at hlength
    omega
  rw [ConfigRef.resolve, ConfigRef.raw]
  cases config.get? (String.ofList key) with
  | none =>
    refine iff_of_false hne fun hv => ?_
    cases hv
  | some v =>
    cases v with
    | null =>
      refine iff_of_false hne fun hv => ?_
      cases hv
    | _ => exact Option.some_inj.symm

/-- On one line, with the classes of ASCII, the two differ where the config does not happen
to hold the reference itself. -/
theorem scanner_eq_pattern_iff {s : String} (config : Json) (hs : ∀ c ∈ s.toList, c ≠ '\n') :
    resolveSingleRef valueToString s config = resolveByPattern valueToString s config ↔
      ∀ key t, DefaultAlone s.toList key t →
        config.get? (String.ofList key) = some (.string s) := by
  by_cases hprefix : CONFIG_PREFIX <+: s.toList
  · obtain ⟨rest, hrest⟩ := hprefix
    have hline : ∀ c ∈ rest, c ≠ '\n' := fun c hc =>
      hs c (hrest ▸ List.mem_append_right _ hc)
    have hscan : resolveSingleRef valueToString s config =
        (splitRef rest).elim (.string s) (ConfigRef.resolve valueToString · config) := by
      rw [resolveSingleRef, ← hrest, if_pos (List.prefix_append _ rest), List.drop_left]
    have hmatch : resolveByPattern valueToString s config =
        (matchRef rest).elim (.string s) (ConfigRef.resolve valueToString · config) := by
      rw [resolveByPattern, ← hrest, fullmatch_eq hline]
      cases matchRef rest with
      | none => rfl
      | some ref => exact congrArg (ConfigRef.resolve valueToString · config) ref.ofGroups_groups
    rw [hscan, hmatch]
    cases h : splitRef rest with
    | some ref =>
      rw [matchRef_of_splitRef h]
      refine iff_of_true rfl fun key t halone => ?_
      rw [← hrest, defaultAlone_iff, h] at halone
      cases halone.1
    | none =>
      cases h' : matchRef rest with
      | none =>
        refine iff_of_true rfl fun key t halone => ?_
        rw [← hrest, defaultAlone_iff, h'] at halone
        cases halone.2
      | some ref =>
        obtain ⟨-, -, href⟩ := matchRef_of_splitRef_eq_none h h'
        obtain ⟨t, -, -, rfl⟩ := splitAlone_eq_some_iff.mp href
        have halone : DefaultAlone s.toList (rest.takeWhile isWord) t :=
          hrest ▸ defaultAlone_iff.mpr ⟨h, h'⟩
        refine eq_comm.trans ((resolve_alone_eq_iff valueToString halone config).trans ?_)
        constructor
        · intro hconfig key u hother
          rw [← hrest, defaultAlone_iff, h'] at hother
          cases hother.2
          exact hconfig
        · exact fun hall => hall _ t halone
  · rw [resolveSingleRef, resolveByPattern, if_neg hprefix, fullmatch_of_not_prefix hprefix]
    exact iff_of_true rfl fun key t halone =>
      absurd ⟨key ++ ':' :: t, halone.eq.symm⟩ hprefix

/-- **When a reference is resolved as documented.**  The scanner and the expression agree on
a string unless it is a reference with a default alone behind its key, one that is neither a
word nor a word with a default of its own. -/
theorem resolveSingleRef_eq_iff {s : String} (hs : IsAsciiLine s) (config : Json) :
    resolveSingleRef valueToString s config = resolveByPattern valueToString s config ↔
      ∀ key t, DefaultAlone s.toList key t →
        config.get? (String.ofList key) = some (.string s) :=
  scanner_eq_pattern_iff valueToString config fun c hc => (hs c hc).2

/-- A default alone behind the key is not read. -/
theorem default_alone_unread :
    CONFIG_REF.fullmatch "$config.app().KEY:1.5".toList =
        some [(1, "KEY".toList), (3, "1.5".toList)] ∧
      resolveByPattern (fun _ => "") "$config.app().KEY:1.5" (.object .empty) = .string "1.5" ∧
      resolveSingleRef (fun _ => "") "$config.app().KEY:1.5" (.object .empty) =
        .string "$config.app().KEY:1.5" := ⟨rfl, rfl, rfl⟩

theorem typed_default_read :
    resolveSingleRef (fun _ => "") "$config.app().KEY:string:1.5" (.object .empty) =
      resolveByPattern (fun _ => "") "$config.app().KEY:string:1.5" (.object .empty) := by
  have hall : "$config.app().KEY:string:1.5".toList.all
      (fun c => decide (c.toNat < 128 ∧ c ≠ '\n')) = true := rfl
  have hs : IsAsciiLine "$config.app().KEY:string:1.5" :=
    fun c hc => of_decide_eq_true (List.all_eq_true.mp hall c hc)
  have hrest : "$config.app().KEY:string:1.5".toList =
      CONFIG_PREFIX ++ "KEY:string:1.5".toList := rfl
  refine (resolveSingleRef_eq_iff (fun _ => "") hs _).mpr fun key t halone => ?_
  rw [hrest, defaultAlone_iff] at halone
  cases halone.1

end Resolve

/-! ## Schemas -/

mutual
/-- Put a value in the place of each string. -/
def Json.mapStrings (f : String → Json) : Json → Json
  | .object ⟨ks, nodup, vals⟩ => .object ⟨ks, nodup, fun k => mapStrings f (vals k)⟩
  | .array items => .array (mapStringsAll f items)
  | .string s => f s
  | other => other
def Json.mapStringsAll (f : String → Json) : List Json → List Json
  | [] => []
  | item :: items => mapStrings f item :: mapStringsAll f items
end

/-- A string in a value, other than as a key. -/
inductive Json.HasString (s : String) : Json → Prop
  | string : HasString s (.string s)
  | item {items : List Json} {item : Json} (h : item ∈ items) (hs : HasString s item) :
    HasString s (.array items)
  | field {fields : IndexMap String Json} {k : String} {v : Json} (h : fields.get? k = some v)
    (hs : HasString s v) : HasString s (.object fields)

mutual
def resolveConfigRefs (valueToString : Json → String) (config : Json) : Json → Json
  | .object ⟨ks, nodup, vals⟩ =>
    .object ⟨ks, nodup, fun k => resolveConfigRefs valueToString config (vals k)⟩
  | .array items => .array (resolveAllConfigRefs valueToString config items)
  | .string s =>
    if CONFIG_PREFIX <:+: s.toList then resolveSingleRef valueToString s config else .string s
  | other => other
def resolveAllConfigRefs (valueToString : Json → String) (config : Json) :
    List Json → List Json
  | [] => []
  | item :: items =>
    resolveConfigRefs valueToString config item ::
      resolveAllConfigRefs valueToString config items
end

section Schemas
variable {valueToString : Json → String} {config : Json}

theorem resolveAllConfigRefs_eq_map (items : List Json) :
    resolveAllConfigRefs valueToString config items =
      items.map (resolveConfigRefs valueToString config) := by
  induction items with
  | nil => rfl
  | cons item items ih => rw [resolveAllConfigRefs, ih, List.map_cons]

theorem mapStringsAll_eq_map (f : String → Json) (items : List Json) :
    mapStringsAll f items = items.map (mapStrings f) := by
  induction items with
  | nil => rfl
  | cons item items ih => rw [mapStringsAll, ih, List.map_cons]

theorem resolveConfigRefs_string (s : String) :
    resolveConfigRefs valueToString config (.string s) =
      resolveSingleRef valueToString s config := by
  rw [resolveConfigRefs]
  split
  · rfl
  · rename_i h
    exact (if_neg fun hprefix => h hprefix.isInfix).symm

/-- **A schema is resolved as documented** when none of its strings is a reference with a
default alone behind its key. -/
theorem resolveConfigRefs_eq {value : Json}
    (hline : ∀ s, value.HasString s → IsAsciiLine s)
    (halone : ∀ s, value.HasString s → ∀ key t, ¬ DefaultAlone s.toList key t) :
    resolveConfigRefs valueToString config value =
      value.mapStrings fun s => resolveByPattern valueToString s config := by
  induction value with
  | null => rfl
  | bool b => rfl
  | number n => rfl
  | string s =>
    rw [resolveConfigRefs_string, mapStrings]
    exact (scanner_eq_pattern_iff valueToString config fun c hc => (hline s .string c hc).2).mpr
      fun key t h => absurd h (halone s .string key t)
  | array items ih =>
    rw [resolveConfigRefs, mapStrings, resolveAllConfigRefs_eq_map, mapStringsAll_eq_map]
    exact congrArg Json.array (List.map_congr_left fun item h =>
      ih item h (fun s hs => hline s (.item h hs)) fun s hs => halone s (.item h hs))
  | object fields ih =>
    cases fields with
    | mk ks nodup vals =>
      rw [resolveConfigRefs, mapStrings]
      refine congrArg (fun vals => Json.object ⟨ks, nodup, vals⟩) (funext fun k => ?_)
      have hk : IndexMap.get? ⟨ks, nodup, vals⟩ k.1 = some (vals k) :=
        IndexMap.get?_eq_some_iff.mpr ⟨k.2, rfl⟩
      exact ih k.1 (vals k) hk (fun s hs => hline s (.field hk hs))
        fun s hs => halone s (.field hk hs)

end Schemas
end Doover
