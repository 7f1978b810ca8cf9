import TemplateLint.Constructor.Walk
import Mathlib.Logic.Relation

/-!
# Paths through a constructor

The state of a path is one bit: whether `super()` has been called. A path through a piece of code
starts with a bit and has an outcome, which holds the bit at that point: it comes to the end of
the piece, returns, jumps, throws, or has come to a call of `super()`. `evaluateTree` gives the
paths of expressions, `perform` those of statements, and `constructorPaths` those of a constructor.

* Conditions and short-circuit operators take either way, and so does a loop test that is there
  and is no literal.
* A value that is bound to a target is taken apart by it: computed keys are evaluated, and default
  values may be (`bindTree`). So it is with parameters, declarations, the elements that a loop goes
  over, and exceptions that are caught.
* The tests of a switch are evaluated one after another up to one that fits, and its case is
  entered. If none fits, the default case is entered, or else no case.
* A jump leads to the innermost target that it names, and otherwise nowhere.
* An exception may be thrown before any statement, by `throw`, and right after a call of
  `super()`. It leads to the innermost catch block around it.
* How a finally block is gone through is left open (`Finalization`): on every way out
  (`Finalization.always`), or only at the normal end and for returns (`Paths.finishing`).
* Functions and classes inside are not gone into.

These are rules about single paths. Nothing here joins or iterates facts.
-/

namespace TemplateLint.Constructor

open TemplateLint.Syntax

/-- What a path comes to, with the bit at that point. -/
inductive Outcome where
  | ended (called : Bool)
  | returned (called : Bool)
  | jumped (jump : Jump) (called : Bool)
  | threw (called : Bool)
  /-- A call of `super()` whose arguments have been evaluated. -/
  | met (site : CallSite) (called : Bool)
  deriving DecidableEq, Repr

namespace Outcome

/-- The code behind is run. -/
def goesOn : Outcome → Bool
  | .ended _ => true
  | _ => false

/-- The bit at the end of a path. -/
def called : Outcome → Bool
  | .ended called | .returned called | .jumped _ called | .threw called | .met _ called => called

def withCalled : Outcome → Bool → Outcome
  | .ended _, called => .ended called
  | .returned _, called => .returned called
  | .jumped jump _, called => .jumped jump called
  | .threw _, called => .threw called
  | .met site _, called => .met site called

end Outcome

/-- The paths of a piece of code: the outcomes for each bit it is started with. -/
abbrev Paths := Bool → Outcome → Prop

/-! ## Putting paths together -/

namespace Paths

def stop (outcome : Bool → Outcome) : Paths := fun called result => result = outcome called

def nowhere : Paths := fun _ _ => False

def skip : Paths := stop .ended

/-- The second is gone through after each path of the first that goes on. -/
def andThen (first second : Paths) : Paths := fun called result =>
  (∃ between, first called (.ended between) ∧ second between result)
    ∨ (first called result ∧ result.goesOn = false)

def either (first second : Paths) : Paths := fun called result =>
  first called result ∨ second called result

/-- The paths that do not go on. -/
def aside (paths : Paths) : Paths := fun called result =>
  paths called result ∧ result.goesOn = false

/-- Goes on if the condition holds. -/
def guard (condition : Bool) : Paths := fun called result =>
  condition = true ∧ result = .ended called

/-- A call of `super()` after its arguments. An exception may be thrown right after it. -/
def superCall (site : CallSite) : Paths := fun called result =>
  result = .met site called ∨ result = .threw true ∨ result = .ended true

/-- Jumps to the end of a target come to the end of the code in it, and no jump to the
target leads out of it. -/
def breaking (target : Target) (paths : Paths) : Paths := fun called result =>
  (∃ jump after, paths called (.jumped jump after) ∧ target.catches jump = true
      ∧ jump.continues = false ∧ result = .ended after)
    ∨ (paths called result ∧ ∀ jump after, result = .jumped jump after →
        target.catches jump = false)

/-- Jumps to the next round of a target also come to the end of the code in it. -/
def continuing (target : Target) (paths : Paths) : Paths := fun called result =>
  (∃ jump after, paths called (.jumped jump after) ∧ target.catches jump = true
      ∧ jump.continues = true ∧ result = .ended after)
    ∨ paths called result

/-- From a bit to the bits with which the code can end. -/
def Ends (paths : Paths) (before after : Bool) : Prop := paths before (.ended after)

/-- The last round of a loop: it does not come to its end, or is the way out. -/
def lastRound (round leave : Paths) : Paths := fun head result =>
  leave head result ∨ aside round head result

/-- A loop: any number of rounds that come to their end, and then a last one. -/
def loop (target : Target) (round leave : Paths) : Paths := fun called result =>
  ∃ head, Relation.ReflTransGen round.Ends called head
    ∧ breaking target (lastRound round leave) head result

/-- The handler is gone through after each path that throws. -/
def catching (paths handler : Paths) : Paths := fun called result =>
  (∃ thrown, paths called (.threw thrown) ∧ handler thrown result)
    ∨ (paths called result ∧ ∀ thrown, result ≠ .threw thrown)

/-- Every way out leads through a last piece first, and on to where it was going if that
piece comes to its end. -/
def finallyThrough (paths last : Paths) : Paths := fun called result =>
  (∃ outcome after, paths called outcome ∧ (∀ site bit, outcome ≠ .met site bit)
      ∧ last outcome.called (.ended after) ∧ result = outcome.withCalled after)
    ∨ (∃ outcome, paths called outcome ∧ (∀ site bit, outcome ≠ .met site bit)
      ∧ last outcome.called result ∧ result.goesOn = false)
    ∨ (paths called result ∧ ∃ site bit, result = .met site bit)

/-- A finally block (`last`) after a try block (`block`) that is taken together with its catch clause
(`caught`). -/
def finishing (block caught last : Paths) : Paths := fun called result =>
  (∃ after, caught called (.ended after) ∧ last after result)
    ∨ (∃ after, caught called (.returned after) ∧ last.andThen (.stop .returned) after result)
    ∨ (caught called result ∧ result.goesOn = false ∧ ∀ after, result ≠ .returned after)
    ∨ ((∀ after, ¬ caught called (.ended after))
      ∧ ∃ thrown, block called (.threw thrown) ∧ last.aside thrown result)

end Paths

/-! ## Expressions -/

mutual

/-- The paths of an expression at a place. What is not listed evaluates its parts in
source order. -/
def evaluateTree (here : Path) : Tree → Paths
  | .mk ⟨span, form⟩ _ children =>
    match form, children with
    | .function .., _ | .arrowFunction .., _ | .classDefinition .., _ => .skip
    | .call ⟨_, .super⟩ _, children =>
      (evaluateTrees here children).andThen (.superCall ⟨here, span⟩)
    | .conditional .., [(atTest, test), (atYes, yes), (atNo, no)] =>
      (evaluateTree (atTest :: here) test).andThen
        (.either (evaluateTree (atYes :: here) yes) (evaluateTree (atNo :: here) no))
    | .binary _ operator _, [(atLeft, left), (atRight, right)] =>
      (evaluateTree (atLeft :: here) left).andThen
        (if operator.isLogical then .either .skip (evaluateTree (atRight :: here) right)
          else evaluateTree (atRight :: here) right)
    | .assignment _ operator _, [(atLeft, left), (atRight, right)] =>
      (evaluateTree (atLeft :: here) left).andThen
        (if operator.isShortCircuit then .either .skip (evaluateTree (atRight :: here) right)
          else evaluateTree (atRight :: here) right)
    | _, children => evaluateTrees here children

def evaluateTrees (here : Path) : List (Step × Tree) → Paths
  | [] => .skip
  | (step, tree) :: rest => (evaluateTree (step :: here) tree).andThen (evaluateTrees here rest)

end

/-- The paths of an expression, part by part. -/
def evaluate (here : Path) (node : Node) : Paths := evaluateTree here node.tree

def evaluate? (here : Path) : Option Node → Paths
  | none => .skip
  | some node => evaluate here node

/-! ## Targets -/

/-- Patterns that take the value apart. -/
def takesApart : Node → Bool
  | ⟨_, .arrayPattern _⟩ | ⟨_, .objectPattern _⟩ => true
  | _ => false

mutual

/-- The paths of giving a value to a target at a place. A default value is evaluated if it is
needed: before the pattern that takes it apart, and after a target of any other kind. -/
def bindTree (here : Path) : Tree → Paths
  | .mk ⟨span, form⟩ layout children =>
    match form, children with
    | .arrayPattern _, children | .objectPattern _, children | .restElement _, children =>
      bindTrees here children
    | .property .., [(atKey, key), (atValue, value)] =>
      (evaluateTree (atKey :: here) key).andThen (bindTree (atValue :: here) value)
    | .assignmentPattern left _, [(atLeft, target), (atRight, value)] =>
      if takesApart left then
        (Paths.either .skip (evaluateTree (atRight :: here) value)).andThen
          (bindTree (atLeft :: here) target)
      else
        (bindTree (atLeft :: here) target).andThen
          (.either .skip (evaluateTree (atRight :: here) value))
    | form, children => evaluateTree here (.mk ⟨span, form⟩ layout children)

def bindTrees (here : Path) : List (Step × Tree) → Paths
  | [] => .skip
  | (step, tree) :: rest => (bindTree (step :: here) tree).andThen (bindTrees here rest)

end

def bind (here : Path) (target : Node) : Paths := bindTree here target.tree

def bind? (here : Path) : Option Node → Paths
  | none => .skip
  | some target => bind here target

def bindAll (here : Path) (field : Field) : Nat → List Node → Paths
  | _, [] => .skip
  | index, target :: rest =>
    (bind (here.item field index) target).andThen (bindAll here field (index + 1) rest)

/-- Each declarator evaluates its value and then binds its target. -/
def declare (here : Path) : Nat → List Node → Paths
  | _, [] => .skip
  | index, ⟨_, .variableDeclarator target init⟩ :: rest =>
    (evaluate? ((here.item .declarations index).child .init) init).andThen
      ((bind ((here.item .declarations index).child .id) target).andThen
        (declare here (index + 1) rest))
  | index, _ :: rest => declare here (index + 1) rest

/-- What a loop over a collection binds in a round. -/
def bindHead (here : Path) : Node → Paths
  | ⟨_, .variableDeclaration declarations _⟩ => declare here 0 declarations
  | target => bind here target

/-! ## Statements -/

/-- The value of a test that does not depend on the run: a literal, or no test at all. -/
def decidedTest? : Option Node → Option Bool
  | none => some true
  | some ⟨_, .literal value _⟩ => some value.isTruthy
  | some _ => none

def Paths.entering (test? : Option Node) : Paths := guard (decidedTest? test? != some false)

def Paths.leaving (test? : Option Node) : Paths := guard (decidedTest? test? != some true)

/-- How a finally block (the third) is gone through after a try block (the first) that is taken
together with its catch clause (the second). -/
abbrev Finalization := Paths → Paths → Paths → Paths

/-- The finally block is gone through after every end of what it stands behind. -/
def Finalization.always : Finalization := fun _ caught last => caught.finallyThrough last

def performInit (here : Path) : Option Node → Paths
  | none => .skip
  | some ⟨_, .variableDeclaration declarations _⟩ =>
    .either (.stop .threw) (declare here 0 declarations)
  | some node => evaluate here node

def performTests (here : Path) : Nat → List Node → Paths
  | _, [] => .skip
  | index, ⟨_, .switchCase test _⟩ :: rest =>
    (evaluate? ((here.item .cases index).child .test) test).andThen
      (performTests here (index + 1) rest)
  | index, _ :: rest => performTests here (index + 1) rest

mutual

/-- The paths of a statement. Every statement may throw at its start. -/
def perform (final : Finalization) (labels : List String) (here : Path) : Node → Paths
  | ⟨_, form⟩ => .either (.stop .threw) (performForm final labels here form)

/-- The ways through a statement, form by form. -/
def performForm (final : Finalization) (labels : List String) (here : Path) : Form → Paths
  | .block body => performAll final here .body 0 body
  | .expressionStatement expression => evaluate (here.child .expression) expression
  | .variableDeclaration declarations _ => declare here 0 declarations
  | .exportNamed (some ⟨_, .variableDeclaration declarations _⟩) _ _ =>
    declare (here.child .declaration) 0 declarations
  | .exportDefault declaration => evaluate (here.child .declaration) declaration
  | .ifStatement test consequent alternate =>
    (evaluate (here.child .test) test).andThen
      (.either (perform final [] (here.child .consequent) consequent)
        (perform? final (here.child .alternate) alternate))
  | .returnStatement none => .stop .returned
  | .returnStatement (some argument) =>
    (evaluate (here.child .argument) argument).andThen (.stop fun _ => .returned true)
  | .throwStatement argument =>
    (evaluate (here.child .argument) argument).andThen (.stop .threw)
  | .breakStatement label => .stop (.jumped ⟨false, label.map Ident.name⟩)
  | .continueStatement label => .stop (.jumped ⟨true, label.map Ident.name⟩)
  | .labeledStatement label body =>
    if takesLabels body then perform final (label.name :: labels) (here.child .body) body
    else .breaking (labelTarget (label.name :: labels)) (perform final [] (here.child .body) body)
  | .whileStatement test body =>
    let tested := evaluate (here.child .test) test
    .loop (loopTarget labels)
      (tested.andThen (.andThen (.entering (some test))
        (.continuing (loopTarget labels) (perform final [] (here.child .body) body))))
      (tested.andThen (.leaving (some test)))
  | .doWhileStatement body test =>
    let tested := Paths.andThen
      (.continuing (loopTarget labels) (perform final [] (here.child .body) body))
      (evaluate (here.child .test) test)
    .loop (loopTarget labels) (tested.andThen (.entering (some test)))
      (tested.andThen (.leaving (some test)))
  | .forStatement init test update body =>
    let tested := evaluate? (here.child .test) test
    (performInit (here.child .init) init).andThen
      (.loop (loopTarget labels)
        (tested.andThen (.andThen (.entering test)
          (.andThen (.continuing (loopTarget labels) (perform final [] (here.child .body) body))
            (evaluate? (here.child .update) update))))
        (tested.andThen (.leaving test)))
  | .forInStatement left right body | .forOfStatement left right body =>
    (evaluate (here.child .right) right).andThen
      (.loop (loopTarget labels)
        (.andThen (bindHead (here.child .left) left)
          (.continuing (loopTarget labels) (perform final [] (here.child .body) body))) .skip)
  | .switchStatement discriminant cases =>
    (evaluate (here.child .discriminant) discriminant).andThen
      (.breaking (switchTarget labels)
        (.either (performFromFit final here 0 cases)
          ((performTests here 0 cases).andThen
            (.either (.guard (!cases.any isDefaultCase)) (performFromDefault final here 0 cases)))))
  | .tryStatement block handler none =>
    performCaught final (here.child .handler) (perform final [] (here.child .block) block) handler
  | .tryStatement block handler (some finalizer) =>
    final (perform final [] (here.child .block) block)
      (performCaught final (here.child .handler) (perform final [] (here.child .block) block)
        handler)
      (perform final [] (here.child .finalizer) finalizer)
  | _ => .skip

def performAll (final : Finalization) (here : Path) (field : Field) (index : Nat) :
    List Node → Paths
  | [] => .skip
  | node :: rest =>
    (perform final [] (here.item field index) node).andThen
      (performAll final here field (index + 1) rest)

def perform? (final : Finalization) (here : Path) : Option Node → Paths
  | none => .skip
  | some node => perform final [] here node

/-- The paths of a switch up to the first test that fits, and on from its case. -/
def performFromFit (final : Finalization) (here : Path) (index : Nat) : List Node → Paths
  | [] => .nowhere
  | ⟨_, .switchCase (some test) consequent⟩ :: rest =>
    (evaluate ((here.item .cases index).child .test) test).andThen
      (.either
        ((performAll final (here.item .cases index) .consequent 0 consequent).andThen
          (performThrough final here (index + 1) rest))
        (performFromFit final here (index + 1) rest))
  | _ :: rest => performFromFit final here (index + 1) rest

/-- The paths of a switch from its default case on, after all tests. -/
def performFromDefault (final : Finalization) (here : Path) (index : Nat) : List Node → Paths
  | [] => .nowhere
  | ⟨_, .switchCase none consequent⟩ :: rest =>
    .either
      ((performAll final (here.item .cases index) .consequent 0 consequent).andThen
        (performThrough final here (index + 1) rest))
      (performFromDefault final here (index + 1) rest)
  | _ :: rest => performFromDefault final here (index + 1) rest

/-- The paths of the cases that are left, one falling through to the next. -/
def performThrough (final : Finalization) (here : Path) (index : Nat) : List Node → Paths
  | [] => .skip
  | ⟨_, .switchCase _ consequent⟩ :: rest =>
    (performAll final (here.item .cases index) .consequent 0 consequent).andThen
      (performThrough final here (index + 1) rest)
  | _ :: rest => performThrough final here (index + 1) rest

def performCaught (final : Finalization) (here : Path) (block : Paths) : Option Node → Paths
  | some ⟨_, .catchClause param body⟩ =>
    .catching block ((bind? (here.child .param) param).andThen
      (perform final [] (here.child .body) body))
  | _ => block

end

/-- The paths of a constructor: it binds its parameters and runs its body. -/
def constructorPaths (final : Finalization) (here : Path) : Node → Paths
  | ⟨_, .methodDefinition _ _ ⟨_, .function _ _ params ⟨_, .block body⟩ _ _⟩ _ _ _⟩ =>
    (bindAll (here.child .value) .params 0 params).andThen
      (performAll final ((here.child .value).child .body) .body 0 body)
  | _ => .nowhere

end TemplateLint.Constructor
