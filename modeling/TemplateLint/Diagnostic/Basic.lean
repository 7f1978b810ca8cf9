import TemplateLint.Diagnostic.Location
import TemplateLint.Diagnostic.Severity

/-!
# Diagnostics

A problem as it is reported: where, how serious, by which rule, and in which words. It is
written as one line of text (`Diagnostic.text`) or as one line of JSON
(`Diagnostic.jsonLine`).
-/

namespace TemplateLint

open TemplateLint.Diagnostic

/-- A reported problem. -/
structure Diagnostic where
  errorId : String
  message : String
  severity : Severity
  location : Location
  rule : String
  nodeType : String
  deriving DecidableEq, Repr

namespace Diagnostic

/-- The members of a problem in JSON; an empty node type is left out. -/
def toJson (diagnostic : Diagnostic) : Json :=
  .object ([("file", .text diagnostic.location.file), ("line", .int diagnostic.location.line),
    ("column", .int diagnostic.location.column), ("severity", .text diagnostic.severity.text),
    ("message", .text diagnostic.message), ("errorId", .text diagnostic.errorId),
    ("rule", .text diagnostic.rule)]
    ++ if diagnostic.nodeType.isEmpty then [] else [("nodeType", .text diagnostic.nodeType)])

def jsonLine (diagnostic : Diagnostic) : String := diagnostic.toJson.render

def text (diagnostic : Diagnostic) : String :=
  diagnostic.location.text ++ ": " ++ diagnostic.severity.text ++ ": " ++ diagnostic.message
    ++ " [" ++ diagnostic.errorId ++ "]"

/-- Problems by file, line and column; those of one place keep their order. -/
def sort (diagnostics : List Diagnostic) : List Diagnostic :=
  diagnostics.mergeSort fun a b => a.location.le b.location

end Diagnostic

end TemplateLint
