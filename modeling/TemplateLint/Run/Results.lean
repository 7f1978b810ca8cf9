import TemplateLint.Diagnostic.Basic

/-!
# Results

The problems of one or more files, all together and by rule, with counts and times.
The results of several files are put together one after another (`Results.extend`).
-/

namespace TemplateLint

open TemplateLint.Diagnostic

/-- What has been found out about files. -/
structure Results where
  diagnostics : List Diagnostic
  byRule : Entries (List Diagnostic)
  /-- Times by what took them, in tenths of a millisecond. -/
  times : Entries Nat
  ruleNames : List String
  files : List String
  deriving DecidableEq, Repr

namespace Results

def empty : Results := ⟨[], [], [], [], []⟩

/-- Entries with the values of others combined into them, one after another. -/
def combine {α : Type} (join : α → α → α) (base added : Entries α) : Entries α :=
  added.foldl (fun entries (name, value) =>
    entries.set name (match entries.find? name with
      | some old => join old value
      | none => value)) base

/-- Adds the names that are not there yet. -/
def addNames (base added : List String) : List String :=
  added.foldl (fun names name => if names.contains name then names else names ++ [name]) base

/-- Results with those of further files. -/
def extend (results more : Results) : Results :=
  { diagnostics := Diagnostic.sort (results.diagnostics ++ more.diagnostics)
    byRule := combine (· ++ ·) results.byRule more.byRule
    times := combine (· + ·) results.times more.times
    ruleNames := addNames results.ruleNames more.ruleNames
    files := results.files ++ more.files }

def ofSeverity (results : Results) (severity : Severity) : List Diagnostic :=
  results.diagnostics.filter fun diagnostic => diagnostic.severity = severity

def errorCount (results : Results) : Nat := (results.ofSeverity .error).length

def warningCount (results : Results) : Nat := (results.ofSeverity .warning).length

def totalCount (results : Results) : Nat := results.diagnostics.length

def messages (results : Results) : List String := results.diagnostics.map Diagnostic.message

def text (results : Results) : String := "\n".intercalate (results.diagnostics.map Diagnostic.text)

def jsonLines (results : Results) : String :=
  "\n".intercalate (results.diagnostics.map Diagnostic.jsonLine)

def timeName (step : String) : String := step ++ "_elapsed_ms"

def timeText (tenths : Nat) : String :=
  toString (tenths / 10) ++ "." ++ toString (tenths % 10) ++ "ms"

def ruleLine (results : Results) (name : String) : String :=
  "  " ++ name ++ ": " ++ toString ((results.byRule.find? name).getD []).length ++ " findings ("
    ++ timeText ((results.times.find? (timeName name)).getD 0) ++ ")"

/-- A summary: one line about all files, and one about each rule that ran. -/
def summary (results : Results) : String :=
  "\n".intercalate
    (("Checked " ++ toString results.files.length ++ " file(s): " ++ toString results.totalCount
      ++ " problems (" ++ toString results.errorCount ++ " errors, "
      ++ toString results.warningCount ++ " warnings)")
      :: results.ruleNames.map results.ruleLine)

end Results

end TemplateLint
