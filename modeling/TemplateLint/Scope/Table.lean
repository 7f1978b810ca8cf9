import TemplateLint.Scope.Event

/-!
# Scope tables

The scopes of a program with their variables, and its references, collected from the scope events
in one pass (`Table.ofEvents`). Nothing is looked up before all declarations are in the table.
Scopes are numbered in the order in which they are entered; the global scope is number 0.
-/

namespace TemplateLint.Scope

open TemplateLint.Syntax

structure Variable where
  name : String
  kind : VariableKind
  /-- The identifiers that declare it, in the order they were met. -/
  definitions : List Occurrence
  deriving DecidableEq, Repr

/-- A scope, the node that opens it, and the variables that are declared in it. -/
structure LexicalScope where
  kind : ScopeKind
  block : Path
  /-- The numbers of the scopes around it, innermost first. -/
  enclosing : List Nat
  /-- In order of their first declaration. -/
  locals : List Variable
  deriving DecidableEq, Repr

namespace LexicalScope

def upper? (scope : LexicalScope) : Option Nat := scope.enclosing.head?

def find? (scope : LexicalScope) (name : String) : Option Variable :=
  scope.locals.find? fun binding => binding.name == name

end LexicalScope

/-- Adds a variable, or a definition to the variable of that name. -/
def declareVariable (name : String) (kind : VariableKind) (definition : Option Occurrence) :
    List Variable → List Variable
  | [] => [⟨name, kind, definition.toList⟩]
  | binding :: rest =>
    if binding.name == name then
      { binding with definitions := binding.definitions ++ definition.toList } :: rest
    else binding :: declareVariable name kind definition rest

/-- A reference and the scope in which it stands. -/
structure Reference where
  occurrence : Occurrence
  access : Access
  scope : Nat
  deriving DecidableEq, Repr

namespace Reference

def name (reference : Reference) : String := reference.occurrence.id.name

end Reference

/-- Scopes by their numbers. -/
abbrev Scopes := List LexicalScope

namespace Scopes

/-- A scope and those around it, innermost first. -/
def chain (scopes : Scopes) (scope : Nat) : List Nat :=
  scope :: ((scopes[scope]?).map LexicalScope.enclosing).getD []

def find? (scopes : Scopes) (scope : Nat) (name : String) : Option Variable :=
  (scopes[scope]?).bind fun s => s.find? name

/-- The nearest scope, from the given one outwards, that declares the name. -/
def lookup? (scopes : Scopes) (scope : Nat) (name : String) : Option Nat :=
  (scopes.chain scope).find? fun candidate => (scopes.find? candidate name).isSome

/-- The scope that takes variables hoisted out of the given one. -/
def hoistTarget (scopes : Scopes) (scope : Nat) : Nat :=
  ((scopes.chain scope).find? fun candidate =>
    ((scopes[candidate]?).map fun s => s.kind.hoists).getD true).getD 0

/-- Declares a variable in a scope. -/
def declare (scopes : Scopes) (scope : Nat) (name : String) (kind : VariableKind)
    (definition : Option Occurrence) : Scopes :=
  scopes.modify scope fun s =>
    { s with locals := declareVariable name kind definition s.locals }

/-- The scopes directly inside a scope. -/
def children (scopes : Scopes) (scope : Nat) : List Nat :=
  scopes.zipIdx.filterMap fun (s, index) => if s.upper? == some scope then some index else none

end Scopes

/-- The scopes that are known, with the current one, the references and the exports so far. -/
structure Table where
  scopes : Scopes
  current : Nat
  /-- In the order they were met. -/
  references : List Reference
  exports : List (Nat × String)
  deriving DecidableEq, Repr

namespace Table

def empty : Table := ⟨[⟨.global, [], [], []⟩], 0, [], []⟩

/-- The table after an event. -/
def step (table : Table) : Event → Table
  | .enter kind block =>
    { table with
      scopes := table.scopes ++ [⟨kind, block, table.scopes.chain table.current, []⟩]
      current := table.scopes.length }
  | .leave => { table with current := ((table.scopes.chain table.current)[1]?).getD 0 }
  | .declare hoisted name kind definition =>
    let target := if hoisted then table.scopes.hoistTarget table.current else table.current
    { table with scopes := table.scopes.declare target name kind definition }
  | .refer occurrence access =>
    { table with references := table.references ++ [⟨occurrence, access, table.current⟩] }
  | .exported name => { table with exports := table.exports ++ [(table.current, name)] }

/-- The table after events. -/
def ofEvents (events : List Event) : Table := events.foldl step empty

end Table

end TemplateLint.Scope
