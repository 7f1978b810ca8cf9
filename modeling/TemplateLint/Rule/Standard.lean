import TemplateLint.Constructor.Check
import TemplateLint.Rule.Basic
import TemplateLint.Template.Resolver

/-!
# The standard rules

* `jsx-member-vars`: the name of a tag counts as a use of its variable.
* `no-undef`: every name is declared, known, or bound by a template.
* `constructor-super`: constructors call `super()` where and only where they have to.
* `no-unused-vars`: every declared variable is used.

They run in this order, since the last depends on the first.
-/

namespace TemplateLint.Rule

open TemplateLint.Constructor TemplateLint.Diagnostic TemplateLint.Scope TemplateLint.Syntax
  TemplateLint.Template

/-- The variables that opening tags name. -/
def tagVariables (context : Context) : List VariableId :=
  context.tree.places.filterMap fun (place, view) =>
    match view.node.form with
    | .jsxOpening tag _ _ => context.analysis.variableAt? place tag.root
    | _ => none

def tagUses : Rule where
  name := "jsx-member-vars"
  description := "Count JSX tag names as uses of the variables they name"
  errorIds := []
  defaultSeverity := .warning
  flags := []
  check context _ shared :=
    let used := tagVariables context
    .ok (⟨shared.marks ++ used, some (used.map VariableId.name)⟩, [])

/-- Binding attributes that bind no name, and references that nothing resolves. -/
def undeclaredProblems (context : Context) (considerTypeof : Bool) : List Problem :=
  let document : Document := ⟨context.tree, context.text, context.registry⟩
  let (invalid, progress) := validate document .start
  let (unresolved, _) := Template.resolve document considerTypeof context.analysis.free progress
  (invalid ++ unresolved).map fun finding => .ofNode finding.node finding.errorId finding.message

/-- Every name is declared, known, or bound by a template. Operands of `typeof` are looked
at only if the option `typeof` says so. -/
def undeclared : Rule where
  name := "no-undef"
  description := "Disallow undeclared variables unless a template binds them"
  errorIds := ["undefinedIdentifier", "invalidBindingValue"]
  defaultSeverity := .error
  flags := ["typeof"]
  check context options shared :=
    .ok (shared, undeclaredProblems context ((options.find? "typeof").any Json.isTruthy))

def superProblem? (tree : Tree) (finding : SuperFinding) : Option Problem :=
  (tree.nodeAt? finding.place).map fun node =>
    .ofNode node finding.problem.errorId finding.problem.message

def superCalls : Rule where
  name := "constructor-super"
  description := "Require super() calls in constructors of derived classes"
  errorIds := [SuperProblem.missing, .missingSome, .duplicate, .badSuper, .unexpected].map
    SuperProblem.errorId
  defaultSeverity := .error
  flags := []
  check context _ shared :=
    .ok (shared, (constructorFindings context.registry context.tree).filterMap
      (superProblem? context.tree))

def unusedProblem (analysis : Analysis) (unused : Analysis.Unused) : Problem :=
  let id := unused.definition.id
  let assigned := (analysis.referencesOf unused.id).any fun reference => reference.access.writes
  .ofNode id.node "unusedVariable"
    ("'" ++ id.name ++ "' is "
      ++ (if assigned then "assigned a value but never used." else "defined but never used."))

/-- Every declared variable is read, used by a tag, or exported. -/
def unusedVariables : Rule where
  name := "no-unused-vars"
  description := "Disallow unused variables"
  errorIds := ["unusedVariable"]
  defaultSeverity := .warning
  flags := []
  check context _ shared :=
    .ok (shared, (context.analysis.unused shared.marks).map (unusedProblem context.analysis))

/-- The rules that come with the program. -/
def standard : List Rule := [tagUses, undeclared, superCalls, unusedVariables]

end TemplateLint.Rule
