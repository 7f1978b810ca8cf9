import TemplateLint.Decorator.Registry
import TemplateLint.Diagnostic.Severity
import TemplateLint.Scope.Analysis
import TemplateLint.Text.LineIndex

/-!
# Rules

A rule looks at one file (`Context`) and gives the problems it finds. Rules may pass on
what they have learnt to the rules after them (`Shared`), and a rule may fail, in which
case it says why.
-/

namespace TemplateLint

open TemplateLint.Decorator TemplateLint.Diagnostic TemplateLint.Scope TemplateLint.Syntax
  TemplateLint.Text

/-- What a rule is given of a file. -/
structure Context where
  file : String
  text : List Char
  index : LineIndex
  tree : Tree
  analysis : Analysis
  registry : Registry

/-- What rules tell the rules after them. -/
structure Shared where
  /-- Variables that are used in other ways than by references. -/
  marks : List VariableId
  /-- The names that tags were found to use, once a rule has looked for them. -/
  tagNames? : Option (List String)
  deriving DecidableEq, Repr

namespace Shared

def empty : Shared := ⟨[], none⟩

end Shared

/-- A problem that a rule reports, at an offset of the text. -/
structure Problem where
  start : Nat
  nodeType : String
  errorId : String
  message : String
  deriving DecidableEq, Repr

namespace Problem

def ofNode (node : Node) (errorId message : String) : Problem :=
  ⟨node.start, node.typeName, errorId, message⟩

end Problem

/-- A rule, with what it checks. -/
structure Rule where
  name : String
  description : String
  errorIds : List String
  defaultSeverity : Severity
  /-- The names of its options, each of which is true or false. -/
  flags : List String
  /-- The problems of a file under the given options, and what is shared afterwards. -/
  check : Context → Entries Json → Shared → Except String (Shared × List Problem)

namespace Rule

/-- Adds a rule, or puts it in the place of the rule of its name. -/
def register (rules : List Rule) (rule : Rule) : List Rule :=
  if rules.any fun known => known.name == rule.name then
    rules.map fun known => if known.name == rule.name then rule else known
  else rules ++ [rule]

def find? (rules : List Rule) (name : String) : Option Rule :=
  rules.find? fun rule => rule.name == name

def withErrorId (rules : List Rule) (errorId : String) : List Rule :=
  rules.filter fun rule => rule.errorIds.contains errorId

end Rule

end TemplateLint
