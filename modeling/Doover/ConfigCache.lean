import Doover.AppConfig
import Doover.FileScripts

/-! # The config cache on disk

`write_config_cache` writes the app's config to a file beside the cache, named by the
extension `tmp`, and renames it over the cache.  Each operation may fail, and the power
may be cut at any moment, also while the file is being written: what is left of it is
then the beginning of what was to be written.

The cache is whole in every run, saved in full or as it was found, exactly when its own
extension is not `tmp` (`whole_iff`): with that extension the file that is written is the
cache itself.  `save_refines` is the step up to `writeConfigCache` on a `CacheFile`, of
which a save that is cut is either the whole or nothing.
-/

namespace Doover
open Json FileScripts

/-! ## Paths -/

/-- What is before and after the last dot. -/
def splitLastDot : List Char → Option (List Char × List Char)
  | [] => none
  | c :: cs =>
    match splitLastDot cs with
    | some (before, after) => some (c :: before, after)
    | none => if c = '.' then some ([], cs) else none

/-- A path that ends in a file name. -/
structure CachePath where
  parent : List String
  fileName : List Char
  named : fileName ≠ [] ∧ fileName ≠ ['.'] ∧ fileName ≠ ['.', '.']
deriving DecidableEq

/-- The name without its extension.  A dot at the start is no extension's. -/
def fileStem (name : List Char) : List Char :=
  match splitLastDot name with
  | some (before, _) => if before = [] then name else before
  | none => name

def fileExtension (name : List Char) : Option (List Char) :=
  match splitLastDot name with
  | some (before, after) => if before = [] then none else some after
  | none => none

theorem eq_of_splitLastDot {s before after : List Char}
    (h : splitLastDot s = some (before, after)) : s = before ++ '.' :: after := by
  induction s generalizing before with
  | nil => cases h
  | cons c cs ih =>
    rw [splitLastDot] at h
    cases hs : splitLastDot cs with
    | some p =>
      obtain ⟨b, a⟩ := p
      simp only [hs, Option.some.injEq, Prod.mk.injEq] at h
      obtain ⟨rfl, rfl⟩ := h
      rw [ih hs, List.cons_append]
    | none =>
      simp only [hs, Option.ite_none_right_eq_some, Option.some.injEq, Prod.mk.injEq] at h
      obtain ⟨rfl, rfl, rfl⟩ := h
      rfl

example : fileStem "app.config.json".toList = "app.config".toList ∧
    fileStem ".config".toList = ".config".toList := by decide

namespace CachePath

theorem named_append (p : CachePath) (ext : List Char) (hext : ext ≠ []) :
    fileStem p.fileName ++ '.' :: ext ≠ [] ∧ fileStem p.fileName ++ '.' :: ext ≠ ['.'] ∧
      fileStem p.fileName ++ '.' :: ext ≠ ['.', '.'] := by
  have hstem : fileStem p.fileName ≠ [] := by
    rw [fileStem]
    split
    · split
      · exact p.named.1
      · assumption
    · exact p.named.1
  have hlength : 3 ≤ (fileStem p.fileName ++ '.' :: ext).length := by
    have h₁ := List.length_pos_of_ne_nil hstem
    have h₂ := List.length_pos_of_ne_nil hext
    rw [List.length_append, List.length_cons]
    omega
  refine ⟨?_, ?_, ?_⟩ <;> intro h <;> rw [h] at hlength <;> simp at hlength

def extension (p : CachePath) : Option (List Char) := fileExtension p.fileName

/-- The path with another extension to its file name. -/
def withExtension (p : CachePath) (ext : List Char) (hext : ext ≠ []) : CachePath :=
  ⟨p.parent, fileStem p.fileName ++ '.' :: ext, p.named_append ext hext⟩

theorem withExtension_eq_self_iff (p : CachePath) {ext : List Char} (hext : ext ≠ []) :
    p.withExtension ext hext = p ↔ p.extension = some ext := by
  have hname : p.withExtension ext hext = p ↔ fileStem p.fileName ++ '.' :: ext = p.fileName := by
    rw [withExtension]
    constructor
    · exact fun h => congrArg fileName h
    · cases p
      rintro h
      simp only [CachePath.mk.injEq, true_and]
      exact h
  have hlonger : p.fileName ++ '.' :: ext ≠ p.fileName := by simp
  rw [hname, CachePath.extension, fileExtension, fileStem]
  cases hs : splitLastDot p.fileName with
  | none => simp
  | some split =>
    obtain ⟨before, after⟩ := split
    have hp := eq_of_splitLastDot hs
    by_cases hb : before = []
    · simp [hb]
    · simp only [hb, if_false, Option.some.injEq]
      constructor
      · intro h
        rw [hp] at h
        exact (List.cons.inj (List.append_cancel_left h)).2.symm
      · rintro rfl
        exact hp.symm

end CachePath

/-! ## Saves -/

def TMP : List Char := ['t', 'm', 'p']

/-- The beginning of a text is what a write of it may leave. -/
def Torn (text left : String) : Prop := left.toList <+: text.toList

section Cache
variable (pretty : Json → String) (path : CachePath)

/-- The file the new copy is written to. -/
def tmpPath : CachePath := path.withExtension TMP (by decide)

/-- The operations of `write_config_cache`; none when the cached copy is identical. -/
def writeScript (files : Files CachePath String) (appConfig : Json) :
    List (FileOp CachePath String) :=
  if files path = some (pretty appConfig) then []
  else replaceBy (tmpPath path) path (pretty appConfig)

/-- Saves of configs, one after the other, each of which may be cut short.  Between them
anything may happen to other files. -/
inductive SaveRun (f : Files CachePath String) : List Json → Files CachePath String → Prop where
  | nil : SaveRun f [] f
  | save {f' f'' : Files CachePath String} {configs : List Json} {appConfig : Json}
    (run : SaveRun f configs f') (left : Leaves Torn (writeScript pretty path f' appConfig) f' f'') :
    SaveRun f (configs ++ [appConfig]) f''
  | elsewhere {f' f'' : Files CachePath String} {configs : List Json}
    (run : SaveRun f configs f') (same : f'' path = f' path) : SaveRun f configs f''

/-- The cache is as it was found, or one of the configs saved in full. -/
def Whole (f : Files CachePath String) (configs : List Json) (f' : Files CachePath String) : Prop :=
  f' path = f path ∨ ∃ appConfig ∈ configs, f' path = some (pretty appConfig)

variable {pretty path}

/-- One save leaves the cache as it is or saves the config in full. -/
theorem save_leaves (hext : path.extension ≠ some TMP) {f f' : Files CachePath String}
    {appConfig : Json} (h : Leaves Torn (writeScript pretty path f appConfig) f f') :
    f' path = f path ∨ f' path = some (pretty appConfig) := by
  rw [writeScript] at h
  split at h
  · cases h
    exact .inl rfl
  · exact replace_leaves (fun heq => hext ((path.withExtension_eq_self_iff (by decide)).mp heq)) h

theorem saveRun_whole (hext : path.extension ≠ some TMP) {f f' : Files CachePath String}
    {configs : List Json} (h : SaveRun pretty path f configs f') :
    Whole pretty path f configs f' := by
  induction h with
  | nil => exact .inl rfl
  | @save f' f'' configs appConfig _ left ih =>
    rcases save_leaves hext left with hsame | hsaved
    · rcases ih with hfirst | ⟨config, hmem, hconfig⟩
      · exact .inl (hsame.trans hfirst)
      · exact .inr ⟨config, List.mem_append_left _ hmem, hsame.trans hconfig⟩
    · exact .inr ⟨appConfig, List.mem_append_right _ List.mem_cons_self, hsaved⟩
  | @elsewhere f' f'' configs _ same ih =>
    rw [Whole, same]
    exact ih

/-- A save that runs to its end leaves the config in the cache. -/
theorem runScript_writeScript (f : Files CachePath String) (appConfig : Json) :
    runScript f (writeScript pretty path f appConfig) path = some (pretty appConfig) := by
  rw [writeScript]
  split
  · assumption
  · exact runScript_replaceBy f

/-- With the extension `tmp` the cache is what is written, and a cut empties it. -/
theorem exists_torn (hext : path.extension = some TMP) :
    SaveRun pretty path (fun _ => none) [.null] (Function.update (fun _ => none) path (some "")) := by
  let files : Files CachePath String := fun _ => none
  have hscript : writeScript pretty path files .null = replaceBy path path (pretty .null) := by
    rw [writeScript, if_neg (fun h => by cases h), tmpPath,
      (path.withExtension_eq_self_iff (by decide)).mpr hext]
  have hleft : Leaves Torn (writeScript pretty path files .null) files
      (Function.update files path (some "")) := by
    have htorn : Torn (pretty .null) "" := List.nil_prefix
    rw [hscript]
    exact replace_self_torn htorn files
  exact .save .nil hleft

/-- **No half a file.**  However saves fail or are cut short, and whatever they save, the
cache is as it was found or one of the saved configs in full, exactly when the cache is
not itself the file that the new copy is written to. -/
theorem whole_iff (hpretty : pretty .null ≠ "") :
    (∀ f configs f', SaveRun pretty path f configs f' → Whole pretty path f configs f') ↔
      path.extension ≠ some TMP := by
  constructor
  · intro h hext
    rcases h _ _ _ (exists_torn hext) with hnone | ⟨config, hmem, hconfig⟩
    · rw [Function.update_self] at hnone
      cases hnone
    · rw [Function.update_self] at hconfig
      cases List.mem_singleton.mp hmem
      exact hpretty (Option.some.inj hconfig).symm
  · exact fun hext f configs f' hrun => saveRun_whole hext hrun

/-- A cache beside which there is room for the new copy. -/
def configJson : CachePath := ⟨["data"], "config.json".toList, by decide⟩

theorem configJson_whole : configJson.extension ≠ some TMP ∧
    ((∀ f configs f', SaveRun (fun _ => "null") configJson f configs f' →
        Whole (fun _ => "null") configJson f configs f') ↔
      configJson.extension ≠ some TMP) :=
  ⟨by decide, whole_iff (by decide)⟩

/-! ## Reading -/

variable {parse : String → Option Json}

/-- What `Config::from_file` makes of the cache. -/
def cacheFile (parse : String → Option Json) : Option String → CacheFile
  | none => .absent
  | some text =>
    match parse text with
    | some config => .document config
    | none => .unreadable

theorem cacheFile_pretty {config : Json} (h : parse (pretty config) = some config) :
    cacheFile parse (some (pretty config)) = .document config := by
  rw [cacheFile, h]

/-- A save, done or cut short, is `writeConfigCache` or nothing. -/
theorem save_refines (hext : path.extension ≠ some TMP) {f f' : Files CachePath String}
    {appConfig : Json} (hparse : parse (pretty appConfig) = some appConfig)
    (h : Leaves Torn (writeScript pretty path f appConfig) f f') :
    cacheFile parse (f' path) = cacheFile parse (f path) ∨
      cacheFile parse (f' path) = writeConfigCache (cacheFile parse (f path)) appConfig := by
  rcases save_leaves hext h with hsame | hsaved
  · exact .inl (congrArg _ hsame)
  · exact .inr (hsaved ▸ cacheFile_pretty hparse)

end Cache
end Doover
