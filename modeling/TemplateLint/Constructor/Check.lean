import TemplateLint.Constructor.Derived
import TemplateLint.Constructor.Walk

/-!
# Calls of super

The constructor of a derived class calls `super()` once on every path, and that of any
other class does not call it. `checkConstructor` gives the problems of one constructor,
and `constructorFindings` those of all constructors of a program.
-/

namespace TemplateLint.Constructor

open TemplateLint.Syntax TemplateLint.Decorator

/-- What may be wrong with the calls of `super()` in a constructor. -/
inductive SuperProblem where
  | missing | missingSome | duplicate | badSuper | unexpected
  deriving DecidableEq, Repr

namespace SuperProblem

def errorId : SuperProblem → String
  | .missing => "missingSuper" | .missingSome => "missingSomeSuper"
  | .duplicate => "duplicateSuper" | .badSuper => "badSuper" | .unexpected => "unexpectedSuper"

def message : SuperProblem → String
  | .missing => "Expected to call 'super()'."
  | .missingSome => "Lacked a call of 'super()' in some code paths."
  | .duplicate => "Unexpected duplicate 'super()'."
  | .badSuper => "Unexpected 'super()' because 'super' is not a constructor."
  | .unexpected => "Unexpected 'super()'."

end SuperProblem

/-- A problem and where it is reported. -/
structure SuperFinding where
  place : Path
  span : Span
  problem : SuperProblem
  deriving DecidableEq, Repr

/-- What is wrong with a constructor of a derived class that may end without a call. -/
def exitProblem? (exits : Facts) : Option SuperProblem :=
  if exits.notCalled then some (if exits.called then .missingSome else .missing) else none

/-- What is wrong with a call, given the facts before it. -/
def callProblem? (heritage : Heritage) (facts : Facts) : Option SuperProblem :=
  if !heritage.derived then some .unexpected
  else if facts.called then some .duplicate
  else if !heritage.fromConstructor then some .badSuper
  else none

/-- The findings of one constructor, in the order of the text. -/
def checkConstructor (heritage : Heritage) (place : Path) (method : Node) : List SuperFinding :=
  let summary := summarize place method
  let whole : List SuperFinding :=
    (if heritage.derived then exitProblem? summary.exits else none).toList.map
      (⟨place, method.span, ·⟩)
  let calls : List SuperFinding := summary.calls.filterMap fun (site, facts) =>
    (callProblem? heritage facts).map (⟨site.place, site.span, ·⟩)
  (whole ++ calls).mergeSort fun a b => a.span.start ≤ b.span.start

/-- A constructor and the class that it belongs to. -/
structure ConstructorSite where
  place : Path
  method : Node
  classNode : Node

/-- The constructors of a program, outer ones first. -/
def constructors (tree : Tree) : List ConstructorSite :=
  tree.places.filterMap fun (place, view) =>
    match view.node.form, tree.nodeAt? (place.drop 2) with
    | .methodDefinition _ _ _ .constructor _ _, some classNode =>
      some ⟨place, view.node, classNode⟩
    | _, _ => none

/-- The findings of all constructors of a program. -/
def constructorFindings (registry : Registry) (tree : Tree) : List SuperFinding :=
  (constructors tree).flatMap fun site =>
    checkConstructor (heritage registry site.classNode) site.place site.method

end TemplateLint.Constructor
