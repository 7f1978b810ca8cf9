import TemplateLint.Scope.Table

/-!
# Scope analysis

Every reference belongs to the nearest scope around it that declares its name. A name that no
scope declares may still be a known global; it then belongs to the global scope, where its first
use declares it. The other references are free (`Analysis.free`).

A variable is unused (`Analysis.unused`) if nothing reads it, exports it or marks it as used.
-/

namespace TemplateLint.Scope

open TemplateLint.Syntax

/-- A variable, by the scope that declares it. -/
structure VariableId where
  scope : Nat
  name : String
  deriving DecidableEq, Repr

/-- A reference with the scope of its variable, if it has one. -/
structure Resolution where
  reference : Reference
  scope? : Option Nat
  deriving DecidableEq, Repr

/-- Scopes, with what each reference denotes. -/
structure Analysis where
  scopes : Scopes
  resolutions : List Resolution
  exported : List VariableId
  deriving Repr

/-- Resolves one reference: the scopes afterwards, and the scope of its variable. A known
global that no scope declares is declared by this use. -/
def resolveNext (globals : List String) (scopes : Scopes) (reference : Reference) :
    Scopes × Option Nat :=
  match scopes.lookup? reference.scope reference.name with
  | some scope => (scopes, some scope)
  | none =>
    if globals.contains reference.name then
      (scopes.declare 0 reference.name .global none, some 0)
    else (scopes, none)

/-- Resolves references in order. A known global is declared when it is first referred to. -/
def resolveInTurn (globals : List String) : Scopes → List Reference → Scopes × List Resolution
  | scopes, [] => (scopes, [])
  | scopes, reference :: rest =>
    let (next, scope?) := resolveNext globals scopes reference
    let (last, later) := resolveInTurn globals next rest
    (last, ⟨reference, scope?⟩ :: later)

namespace Table

/-- Resolves the references and exports of a table. -/
def resolve (table : Table) (globals : List String) : Analysis :=
  let (scopes, resolutions) := resolveInTurn globals table.scopes table.references
  { scopes
    resolutions
    exported := table.exports.filterMap fun (scope, name) =>
      (scopes.lookup? scope name).map (⟨·, name⟩) }

end Table

/-- The scopes, references and exports of a program. -/
def analyze (root : Node) (globals : List String) : Analysis :=
  (Table.ofEvents (programEvents root)).resolve globals

namespace Analysis

/-- The references that nothing declares. -/
def free (analysis : Analysis) : List Occurrence :=
  analysis.resolutions.filterMap fun resolution =>
    if resolution.scope?.isNone then some resolution.reference.occurrence else none

def referencesOf (analysis : Analysis) (id : VariableId) : List Reference :=
  analysis.resolutions.filterMap fun resolution =>
    if resolution.scope? == some id.scope && resolution.reference.name == id.name then
      some resolution.reference
    else none

def resolutionsIn (analysis : Analysis) (scope : Nat) : List Resolution :=
  analysis.resolutions.filter fun resolution => resolution.reference.scope == scope

def allVariables (analysis : Analysis) : List (VariableId × Variable) :=
  analysis.scopes.zipIdx.flatMap fun (scope, index) =>
    scope.locals.map fun binding => (⟨index, binding.name⟩, binding)

def lookup? (analysis : Analysis) (scope : Nat) (name : String) : Option VariableId :=
  (analysis.scopes.lookup? scope name).map (⟨·, name⟩)

/-- The innermost scope that the node at a place opens. -/
def scopeOf? (analysis : Analysis) (block : Path) : Option Nat :=
  (analysis.scopes.zipIdx.reverse.find? fun (scope, index) =>
    index != 0 && scope.block == block).map Prod.snd

/-- The innermost scope around a place. -/
def scopeAt (analysis : Analysis) : Path → Nat
  | [] => (analysis.scopeOf? []).getD 0
  | step :: outer => (analysis.scopeOf? (step :: outer)).getD (analysis.scopeAt outer)

/-- The variable that a name denotes at a place. -/
def variableAt? (analysis : Analysis) (place : Path) (name : String) : Option VariableId :=
  analysis.lookup? (analysis.scopeAt place) name

/-! ## Unused variables -/

/-- Whether a reference is inside the node of a definition. -/
def isInside (definition : Occurrence) (reference : Reference) : Bool :=
  definition.place.tail.isSuffixOf reference.occurrence.place.tail

/-- Whether a reference counts as a use of a variable: it reads, and not from inside
the function or class declaration itself. -/
def countsAsRead (binding : Variable) (reference : Reference) : Bool :=
  reference.access.reads
    && !((binding.kind == .function || binding.kind == .classDeclaration)
      && binding.definitions.head?.any (isInside · reference))

/-- Whether nothing uses a variable. The marks name variables used in other ways than by
references. -/
def isUnused (analysis : Analysis) (marks : List VariableId) (id : VariableId)
    (binding : Variable) : Bool :=
  !binding.kind.isSilent && !marks.contains id && !analysis.exported.contains id
    && !binding.definitions.isEmpty
    && !(analysis.referencesOf id).any (countsAsRead binding)

structure Unused where
  id : VariableId
  kind : VariableKind
  definition : Occurrence
  deriving DecidableEq, Repr

/-- The unused variables by the position of their first definition. -/
def unused (analysis : Analysis) (marks : List VariableId) : List Unused :=
  (analysis.allVariables.filterMap fun (id, binding) =>
      if analysis.isUnused marks id binding then
        binding.definitions.head?.map (⟨id, binding.kind, ·⟩)
      else none).mergeSort
    fun a b => a.definition.id.span.start ≤ b.definition.id.span.start

end Analysis

/-! ## Marks -/

/-- An analysis with the variables that rules have marked as used. -/
structure Usage where
  analysis : Analysis
  marks : List VariableId
  deriving Repr

namespace Usage

/-- Marks the variable that a name stands for at a place as used, and says whether there is
one. -/
def mark (usage : Usage) (place : Path) (name : String) : Usage × Bool :=
  match usage.analysis.variableAt? place name with
  | some id => ({ usage with marks := usage.marks ++ [id] }, true)
  | none => (usage, false)

def unused (usage : Usage) : List Analysis.Unused := usage.analysis.unused usage.marks

end Usage

end TemplateLint.Scope
