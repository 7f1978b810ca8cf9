import TemplateLint.Diagnostic.Basic
import TemplateLint.Directive.Read
import TemplateLint.Text.Glob

/-!
# Suppressions

What is not to be reported is a set of facts: an id everywhere, an id in the files of a pattern, or
an id on a line of a file (`Suppression`). They are registered one after another and kept by their
places: the ids for all files, those of each pattern, and those of each line (`SuppressionStore`).
Whether a problem is suppressed is looked up there (`SuppressionStore.suppresses`).
-/

namespace TemplateLint.Diagnostic

open TemplateLint.Directive TemplateLint.Text

/-- An id and where the problems that it names are not reported. -/
inductive Suppression where
  | everywhere (id : String)
  | inFiles (pattern id : String)
  | onLine (file : String) (line : Int) (id : String)
  deriving DecidableEq, Repr

/-- Whether an id names a problem: by itself, by its rule, or by standing for all. -/
def idNames (id : String) (diagnostic : Diagnostic) : Bool :=
  id == wildcard || id == diagnostic.errorId
    || (!diagnostic.rule.isEmpty && id == diagnostic.rule)

/-- Whether a pattern stands for a file: it is the file, or the end of it, or fits it. -/
def fileMatches (pattern file : String) : Bool :=
  pattern == file || pattern.toList.isSuffixOf file.toList || Glob.fits pattern file

namespace Suppression

/-- Whether a problem is one that the id names, at the place that it is suppressed at. -/
def applies (suppression : Suppression) (diagnostic : Diagnostic) : Bool :=
  match suppression with
  | .everywhere id => idNames id diagnostic
  | .inFiles pattern id =>
    idNames id diagnostic && fileMatches pattern diagnostic.location.file
  | .onLine file line id =>
    idNames id diagnostic && file == diagnostic.location.file && line == diagnostic.location.line

end Suppression

/-- Facts in the order in which they are given. -/
abbrev Suppressions := List Suppression

namespace Suppressions

/-- Whether one of the facts applies to a problem. -/
def suppresses (suppressions : Suppressions) (diagnostic : Diagnostic) : Bool :=
  suppressions.any (·.applies diagnostic)

/-- The problems to which none of the facts applies. -/
def filter (suppressions : Suppressions) (diagnostics : List Diagnostic) : List Diagnostic :=
  List.filter (fun diagnostic => !suppressions.suppresses diagnostic) diagnostics

/-- The facts that the directives of a file state. -/
def ofDirectives (file : String) (directives : Directives) : Suppressions :=
  directives.lines.flatMap (fun (line, ids) => ids.map fun id => .onLine file line id)
    ++ directives.file.map fun id => .inFiles file id

end Suppressions

/-! ## Ids by keys -/

/-- A set of ids with further ones. -/
def addIds (known added : List String) : List String :=
  added.foldl (fun ids id => ids.insert id) known

/-- Sets of ids under keys. -/
structure IdStore (κ : Type) where
  entries : List (κ × List String)
  /-- No key has two entries. -/
  distinct : (entries.map Prod.fst).Nodup

namespace IdStore

variable {κ : Type} [DecidableEq κ]

/-- The store without entries. -/
def empty : IdStore κ := ⟨[], .nil⟩

/-- The ids of a key; there are none if the key has no entry. -/
def idsAt (store : IdStore κ) (key : κ) : List String := (store.entries.lookup key).getD []

/-- Entries with further ids for a key, which is given an entry if it has none. -/
def updateEntries (key : κ) (added : List String) :
    List (κ × List String) → List (κ × List String)
  | [] => [(key, addIds [] added)]
  | (known, ids) :: rest =>
    if known = key then (known, addIds ids added) :: rest
    else (known, ids) :: updateEntries key added rest

theorem keys_updateEntries (key : κ) (added : List String) (entries : List (κ × List String)) :
    (updateEntries key added entries).map Prod.fst
      = if key ∈ entries.map Prod.fst then entries.map Prod.fst
        else entries.map Prod.fst ++ [key] := by
  induction entries with
  | nil => rfl
  | cons entry rest ih =>
    obtain ⟨known, ids⟩ := entry
    rw [updateEntries]
    by_cases same : known = key
    · simp [same]
    · rw [if_neg same, List.map_cons, ih]
      by_cases listed : key ∈ rest.map Prod.fst
      · rw [if_pos listed, if_pos (by exact .tail _ listed), List.map_cons]
      · rw [if_neg listed, if_neg (by simp [Ne.symm same, listed]), List.map_cons, List.cons_append]

theorem nodup_updateEntries (key : κ) (added : List String) {entries : List (κ × List String)}
    (distinct : (entries.map Prod.fst).Nodup) :
    ((updateEntries key added entries).map Prod.fst).Nodup := by
  rw [keys_updateEntries]
  split
  · exact distinct
  · next absent =>
    refine List.nodup_append.2 ⟨distinct, by simp, ?_⟩
    rintro known listed _ single rfl
    exact absent (List.mem_singleton.1 single ▸ listed)

/-- Adds ids to those of a key. -/
def update (store : IdStore κ) (key : κ) (added : List String) : IdStore κ :=
  ⟨updateEntries key added store.entries, nodup_updateEntries key added store.distinct⟩

end IdStore

/-! ## All suppressions -/

/-- What is suppressed, by its places. -/
structure SuppressionStore where
  /-- By file and line. -/
  inline : IdStore (String × Int)
  /-- By file pattern. -/
  fileLevel : IdStore String
  global : List String

namespace SuppressionStore

/-- Nothing is suppressed. -/
def empty : SuppressionStore := ⟨.empty, .empty, []⟩

/-- Suppresses an id everywhere. -/
def addGlobal (store : SuppressionStore) (id : String) : SuppressionStore :=
  { store with global := store.global.insert id }

/-- Suppresses an id in the files of a pattern. -/
def addInFiles (store : SuppressionStore) (id pattern : String) : SuppressionStore :=
  { store with fileLevel := store.fileLevel.update pattern [id] }

/-- Registers what the directives of a file suppress on its lines and in all of it. -/
def loadDirectives (store : SuppressionStore) (file : String) (directives : Directives) :
    SuppressionStore :=
  { store with
    inline := directives.lines.foldl (fun inline (line, ids) => inline.update (file, line) ids)
      store.inline
    fileLevel := if directives.file.isEmpty then store.fileLevel
      else store.fileLevel.update file directives.file }

/-- Registers one fact. -/
def add (store : SuppressionStore) : Suppression → SuppressionStore
  | .everywhere id => store.addGlobal id
  | .inFiles pattern id => store.addInFiles id pattern
  | .onLine file line id => { store with inline := store.inline.update (file, line) [id] }

/-- The store after all facts, registered one after another. -/
def ofFacts (facts : Suppressions) : SuppressionStore := facts.foldl add empty

instance : Coe Suppressions SuppressionStore := ⟨ofFacts⟩

/-- Whether a set of ids has one that names a problem. -/
def idsName (ids : List String) (diagnostic : Diagnostic) : Bool :=
  ids.contains wildcard || ids.contains diagnostic.errorId
    || (!diagnostic.rule.isEmpty && ids.contains diagnostic.rule)

/-- Whether a problem is not to be reported. -/
def suppresses (store : SuppressionStore) (diagnostic : Diagnostic) : Bool :=
  let location := diagnostic.location
  idsName store.global diagnostic
    || idsName (store.inline.idsAt (location.file, location.line)) diagnostic
    || store.fileLevel.entries.any fun (pattern, ids) =>
      idsName ids diagnostic && fileMatches pattern location.file

/-- The problems that are to be reported. -/
def filter (store : SuppressionStore) (diagnostics : List Diagnostic) : List Diagnostic :=
  diagnostics.filter fun diagnostic => !store.suppresses diagnostic

end SuppressionStore

end TemplateLint.Diagnostic
