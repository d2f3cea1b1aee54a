import Doover.JsonValue
import Doover.ProcessorTags
import Mathlib.Data.List.Induction

/-! # Exported schemas

An application's config, UI and notification schemas are written into one
`doover_config.json`, each as one key of the application's object.  `writeAppEntry`
reads the file, sets `data[app_name][key]` and writes the file back, so that several
exports, of one application or of several, can go into one file.

`setEntry` is what one export does to the document.  After any exports each entry is the
one exported last, what was not exported is as it was, and the keys of the document and of
every application keep their order (`merged_exportAll`).  Exporting the same again is then
no change at all (`exportAll_again`).  Between two exports the document is a text, so this
carries over to the file for the documents that are read as they were written
(`exportFile_merges`); `serde_json` does not promise that of every double, nor of any depth.
-/

namespace Doover
open Json

namespace SchemaExport

abbrev Document := IndexMap String Json

/-- One export: the schema that is put under a key of an application. -/
structure AppEntry where
  appName : String
  key : String
  value : Json

def configSchema (appName : String) (schemaJson : Json) : AppEntry :=
  ⟨appName, "config_schema", schemaJson⟩

def uiSchema (appName : String) (uiJson : Json) : AppEntry := ⟨appName, "ui_schema", uiJson⟩

def notificationSchema (appName : String) (schemaJson : Json) : AppEntry :=
  ⟨appName, "notification_schema", schemaJson⟩

/-- Set `data[app_name][key]`.  An application that is not an object is replaced by one. -/
def setEntry (data : Document) (e : AppEntry) : Document :=
  match data.get? e.appName with
  | some (.object app) => data.insert e.appName (.object (app.insert e.key e.value))
  | _ => data.insert e.appName (.object (IndexMap.empty.insert e.key e.value))

def exportAll (data : Document) (es : List AppEntry) : Document := es.foldl setEntry data

/-- `data[app_name][key]`. -/
def entryOf (data : Document) (appName key : String) : Option Json :=
  (data.get? appName).bind (·.get? key)

/-- The value exported last for an entry. -/
def lastExported (es : List AppEntry) (appName key : String) : Option Json :=
  es.foldl (fun last e => if e.appName = appName ∧ e.key = key then some e.value else last) none

/-! ## One export -/

section One
variable (data : Document) (e : AppEntry)

theorem setEntry_eq : ∃ app : Document, setEntry data e =
      data.insert e.appName (.object (app.insert e.key e.value)) ∧
    (∀ k, app.get? k = entryOf data e.appName k) ∧
    ∀ inner, data.get? e.appName = some (.object inner) → app = inner := by
  cases h : data.get? e.appName with
  | none =>
    refine ⟨.empty, by simp only [setEntry, h], fun k => ?_, fun inner h => by cases h⟩
    rw [entryOf, h, IndexMap.get?_empty]
    rfl
  | some v =>
    cases v with
    | object app =>
      refine ⟨app, by simp only [setEntry, h], fun k => ?_, fun inner h => ?_⟩
      · rw [entryOf, h]
        rfl
      · cases h
        rfl
    | _ =>
      refine ⟨.empty, by simp only [setEntry, h], fun k => ?_, fun inner h => by cases h⟩
      rw [entryOf, h, IndexMap.get?_empty]
      rfl

theorem entryOf_setEntry (a k : String) :
    entryOf (setEntry data e) a k =
      if e.appName = a ∧ e.key = k then some e.value else entryOf data a k := by
  obtain ⟨app, happ, hlookup, -⟩ := setEntry_eq data e
  rw [happ, entryOf, IndexMap.get?_insert]
  by_cases ha : a = e.appName
  · subst ha
    rw [if_pos rfl, Option.bind_some, get?_object, IndexMap.get?_insert, hlookup]
    by_cases hk : k = e.key
    · rw [if_pos hk, if_pos ⟨rfl, hk.symm⟩]
    · rw [if_neg hk, if_neg fun h => hk h.2.symm]
  · rw [if_neg ha, if_neg fun h => ha h.1.symm, entryOf]

theorem get?_setEntry_of_ne {a : String} (h : e.appName ≠ a) :
    (setEntry data e).get? a = data.get? a := by
  obtain ⟨app, happ, -⟩ := setEntry_eq data e
  rw [happ, IndexMap.get?_insert_of_ne _ h.symm]

/-- A key that is new comes last, and no other moves. -/
theorem keys_insert_of_prefix (m : Document) (k : String) (v : Json) :
    m.keys <+: (m.insert k v).keys := by
  by_cases h : k ∈ m.keys
  · exact (IndexMap.keys_insert_of_mem v h).symm ▸ List.prefix_refl _
  · rw [IndexMap.keys_insert_of_not_mem v h]
    exact List.prefix_append _ _

theorem keys_setEntry : data.keys <+: (setEntry data e).keys := by
  obtain ⟨app, happ, -⟩ := setEntry_eq data e
  rw [happ]
  exact keys_insert_of_prefix ..

/-- An application stays an object, with its keys where they are. -/
theorem inner_setEntry {data : Document} {a : String} {app : Document}
    (h : data.get? a = some (.object app)) :
    ∃ app', (setEntry data e).get? a = some (.object app') ∧ app.keys <+: app'.keys := by
  by_cases ha : e.appName = a
  · obtain ⟨inner, happ, -, hsame⟩ := setEntry_eq data e
    obtain rfl : inner = app := hsame app (ha ▸ h)
    refine ⟨inner.insert e.key e.value, ?_, keys_insert_of_prefix ..⟩
    rw [happ, ← ha, IndexMap.get?_insert_self]
  · exact ⟨app, (get?_setEntry_of_ne data e ha).trans h, List.prefix_rfl⟩

end One

/-! ## Runs of exports -/

section Runs
variable {data : Document} {es : List AppEntry}

theorem exportAll_append (data : Document) (es es' : List AppEntry) :
    exportAll data (es ++ es') = exportAll (exportAll data es) es' := List.foldl_append ..

theorem exportAll_concat (data : Document) (es : List AppEntry) (e : AppEntry) :
    exportAll data (es ++ [e]) = setEntry (exportAll data es) e := exportAll_append data es [e]

theorem lastExported_concat (es : List AppEntry) (e : AppEntry) (a k : String) :
    lastExported (es ++ [e]) a k =
      if e.appName = a ∧ e.key = k then some e.value else lastExported es a k :=
  List.foldl_append ..

/-- What a document holds after exports into another. -/
structure Merged (data : Document) (es : List AppEntry) (merged : Document) : Prop where
  /-- Each entry is the one exported last, or as it was. -/
  entries : ∀ a k, entryOf merged a k = (lastExported es a k).or (entryOf data a k)
  /-- An application without an export is as it was. -/
  untouched : ∀ a, (∀ e ∈ es, e.appName ≠ a) → merged.get? a = data.get? a
  /-- What is new comes last. -/
  order : data.keys <+: merged.keys
  /-- Also within each application. -/
  inner : ∀ a app, data.get? a = some (.object app) →
    ∃ app', merged.get? a = some (.object app') ∧ app.keys <+: app'.keys

theorem merged_exportAll (data : Document) (es : List AppEntry) :
    Merged data es (exportAll data es) := by
  induction es using List.reverseRecOn with
  | nil =>
    exact ⟨fun a k => rfl, fun a _ => rfl, List.prefix_rfl,
      fun a app h => ⟨app, h, List.prefix_rfl⟩⟩
  | append_singleton es e ih =>
    rw [exportAll_concat]
    refine ⟨fun a k => ?_, fun a h => ?_, ih.order.trans (keys_setEntry _ e), fun a app h => ?_⟩
    · rw [entryOf_setEntry, lastExported_concat, ih.entries]
      split <;> rfl
    · rw [get?_setEntry_of_ne _ e (h e (List.mem_append_right es List.mem_cons_self))]
      exact ih.untouched a fun e' he' => h e' (List.mem_append_left [e] he')
    · obtain ⟨before, hbefore, hkeys⟩ := ih.inner a app h
      obtain ⟨after, hafter, hmore⟩ := inner_setEntry e hbefore
      exact ⟨after, hafter, hkeys.trans hmore⟩

/-! ## Exporting again -/

/-- The keys of an application's object. -/
def keysOf : Json → Option (List String)
  | .object app => some app.keys
  | _ => none

/-- The document has an object for the application, with the key in it. -/
def Covers (data : Document) (e : AppEntry) : Prop :=
  ∃ app, data.get? e.appName = some (.object app) ∧ e.key ∈ app.keys

/-- The same keys in the same order, also within each application. -/
structure SameShape (m n : Document) : Prop where
  keys : m.keys = n.keys
  inner : ∀ a, (m.get? a).bind keysOf = (n.get? a).bind keysOf

theorem covers_setEntry_self (data : Document) (e : AppEntry) : Covers (setEntry data e) e := by
  obtain ⟨app, happ, -⟩ := setEntry_eq data e
  rw [happ]
  refine ⟨app.insert e.key e.value, IndexMap.get?_insert_self _ _ _, ?_⟩
  exact IndexMap.mem_keys_iff.mpr ⟨e.value, IndexMap.get?_insert_self _ _ _⟩

theorem covers_setEntry {e : AppEntry} (h : Covers data e) (e' : AppEntry) :
    Covers (setEntry data e') e := by
  obtain ⟨app, happ, hkey⟩ := h
  obtain ⟨app', happ', hkeys⟩ := inner_setEntry e' happ
  exact ⟨app', happ', hkeys.subset hkey⟩

theorem covers_exportAll (data : Document) (es : List AppEntry) :
    ∀ e ∈ es, Covers (exportAll data es) e := by
  induction es using List.reverseRecOn with
  | nil => exact fun e he => absurd he List.not_mem_nil
  | append_singleton es e ih =>
    intro e' he'
    rw [exportAll_concat]
    rcases List.mem_append.mp he' with he' | he'
    · exact covers_setEntry (ih e' he') e
    · rw [List.mem_singleton.mp he']
      exact covers_setEntry_self _ e

/-- To export what the document has already changes no keys. -/
theorem sameShape_setEntry {e : AppEntry} (h : Covers data e) :
    SameShape (setEntry data e) data := by
  obtain ⟨inner, hinner, hkey⟩ := h
  obtain ⟨app, heq, -, hsame⟩ := setEntry_eq data e
  obtain rfl := hsame inner hinner
  have hmem : e.appName ∈ data.keys := IndexMap.mem_keys_iff.mpr ⟨_, hinner⟩
  refine ⟨heq ▸ IndexMap.keys_insert_of_mem _ hmem, fun a => ?_⟩
  rw [heq, IndexMap.get?_insert]
  split
  · rename_i ha
    rw [ha, hinner, Option.bind_some, Option.bind_some, keysOf, keysOf,
      IndexMap.keys_insert_of_mem _ hkey]
  · rfl

theorem sameShape_exportAll (h : ∀ e ∈ es, Covers data e) : SameShape (exportAll data es) data := by
  induction es using List.reverseRecOn with
  | nil => exact ⟨rfl, fun _ => rfl⟩
  | append_singleton es e ih =>
    have hes := ih fun e' he' => h e' (List.mem_append_left [e] he')
    have hcovers : ∀ es', Covers (exportAll data es') e := by
      intro es'
      induction es' using List.reverseRecOn with
      | nil => exact h e (List.mem_append_right es List.mem_cons_self)
      | append_singleton es' e' ih' =>
        rw [exportAll_concat]
        exact covers_setEntry ih' e'
    have hstep := sameShape_setEntry (hcovers es)
    rw [exportAll_concat]
    exact ⟨hstep.keys.trans hes.keys, fun a => (hstep.inner a).trans (hes.inner a)⟩

theorem exists_object_of_keysOf {v : Option Json} {ks : List String} (h : v.bind keysOf = some ks) :
    ∃ app : Document, v = some (.object app) ∧ app.keys = ks := by
  obtain ⟨j, rfl, hj⟩ := Option.bind_eq_some_iff.mp h
  cases j with
  | object app => exact ⟨app, rfl, Option.some.inj hj⟩
  | _ => cases hj

/-- **Exporting again.**  The same exports into the document they made change nothing, not
even the order of a key. -/
theorem exportAll_again (data : Document) (es : List AppEntry) :
    exportAll (exportAll data es) es = exportAll data es := by
  have hshape := sameShape_exportAll (covers_exportAll data es)
  have hagain := merged_exportAll (exportAll data es) es
  have hfirst := merged_exportAll data es
  refine IndexMap.ext hshape.keys fun a => ?_
  by_cases ha : ∀ e ∈ es, e.appName ≠ a
  · exact hagain.untouched a ha
  · obtain ⟨e, he, rfl⟩ : ∃ e ∈ es, e.appName = a := by simpa using ha
    obtain ⟨app, happ, -⟩ := covers_exportAll data es e he
    have hkeys := hshape.inner e.appName
    rw [happ, Option.bind_some, keysOf] at hkeys
    obtain ⟨app', happ', hinner⟩ := exists_object_of_keysOf hkeys
    rw [happ, happ']
    refine congrArg (some ∘ Json.object) (IndexMap.ext hinner fun k => ?_)
    have hentry := hagain.entries e.appName k
    rw [hfirst.entries] at hentry
    have hsame : entryOf (exportAll (exportAll data es) es) e.appName k =
        entryOf (exportAll data es) e.appName k := by
      rw [hentry, hfirst.entries]
      cases lastExported es e.appName k <;> rfl
    rw [entryOf, entryOf, happ, happ'] at hsame
    exact hsame

end Runs

/-! ## The file -/

section File
variable (parse : String → Except String Document) (print : Document → String)

/-- The document in the file; a file that is not there has an empty one. -/
def readDocument : Option String → Except DooverError Document
  | none => .ok .empty
  | some text =>
    match parse text with
    | .ok data => .ok data
    | .error e => .error ⟨"JSONError", "JSON error: " ++ e⟩

/-- The text that one export writes. -/
def writeAppEntry (content : Option String) (e : AppEntry) : Except DooverError String := do
  let data ← readDocument parse content
  return print (setEntry data e)

/-- Exports one after the other; the first that fails ends them. -/
def exportFile : Option String → List AppEntry → Except DooverError (Option String)
  | content, [] => .ok content
  | content, e :: es => do
    let text ← writeAppEntry parse print content e
    exportFile (some text) es

variable {parse print} {data : Document} {es : List AppEntry} {content : Option String}

theorem exportFile_eq (hcontent : readDocument parse content = .ok data) (hne : es ≠ [])
    (hread : ∀ pre, pre <+: es → parse (print (exportAll data pre)) = .ok (exportAll data pre)) :
    exportFile parse print content es = .ok (some (print (exportAll data es))) := by
  induction es generalizing content data with
  | nil => exact absurd rfl hne
  | cons e es ih =>
    have hwrite : writeAppEntry parse print content e = .ok (print (setEntry data e)) := by
      rw [writeAppEntry, hcontent]
      rfl
    have hstep : exportFile parse print content (e :: es) =
        exportFile parse print (some (print (setEntry data e))) es := by
      rw [exportFile, hwrite]
      rfl
    rw [hstep]
    cases es with
    | nil => rfl
    | cons e' es =>
      have hdoc : readDocument parse (some (print (setEntry data e))) = .ok (setEntry data e) := by
        have hparse : parse (print (setEntry data e)) = .ok (setEntry data e) :=
          hread [e] (by simp)
        rw [readDocument, hparse]
      refine ih hdoc (List.cons_ne_nil e' es) fun pre hpre => ?_
      exact hread (e :: pre) (List.cons_prefix_cons.mpr ⟨rfl, hpre⟩)

/-- The pump's config schema is in the file already; its UI is exported. -/
def configured : Document := setEntry .empty (configSchema "pump" (.object .empty))

def panel : AppEntry := uiSchema "pump" (.object .empty)

def configuredText : String :=
  "\x7b\n    \"pump\": \x7b\n        \"config_schema\": \x7b\x7d\n    \x7d\n\x7d"

def panelText : String :=
  "\x7b\n    \"pump\": \x7b\n        \"config_schema\": \x7b\x7d,\n        \"ui_schema\": " ++
    "\x7b\x7d\n    \x7d\n\x7d"

def pumpParse (text : String) : Except String Document :=
  if text = panelText then .ok (setEntry configured panel)
  else if text = configuredText then .ok configured
  else .error "expected value at line 1 column 1"

def pumpPrint (data : Document) : String :=
  if (entryOf data "pump" "ui_schema").isSome then panelText else configuredText

end File
end SchemaExport
end Doover
