import TemplateLint.Json.Write
import TemplateLint.Text.Blank

/-!
# Severities

How serious a problem is, and the ways in which a configuration says so.
-/

namespace TemplateLint.Diagnostic

open TemplateLint.Text

/-- How serious a problem is. -/
inductive Severity where
  | error
  | warning
  deriving DecidableEq, Repr

namespace Severity

def text : Severity → String
  | .error => "error"
  | .warning => "warning"

def rank : Severity → Nat
  | .error => 2
  | .warning => 1

def words : Entries (Option Severity) :=
  [("error", some .error), ("2", some .error), ("warn", some .warning),
    ("warning", some .warning), ("1", some .warning), ("off", none), ("0", none)]

end Severity

structure SeverityError where
  value : Json

namespace SeverityError

def message (error : SeverityError) : String := "unknown severity " ++ error.value.inspect

end SeverityError

def Severity.ofJson (value : Json) : Except SeverityError (Option Severity) :=
  match words.find? (lowerAscii value.plainText) with
  | some severity => .ok severity
  | none => .error ⟨value⟩

end TemplateLint.Diagnostic
