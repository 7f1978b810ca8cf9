import TemplateLint.Constructor.Flow

/-!
# Paths through a constructor

The flow of every statement and expression of a constructor body. A loop test that is a literal,
or missing, decides which way the loop goes. A catch block is entered with the facts of every
point of its try block at which an exception may be thrown, and a finally block is gone through
for returns and for the normal end. Returning a value counts as a call, since the value stands
in for the new object. Functions and classes inside are not gone into.
-/

namespace TemplateLint.Constructor

open TemplateLint.Syntax

/-! ## Expressions -/

/-- How the parts of an expression are evaluated. -/
inductive Evaluation where
  /-- Not at all. -/
  | closed
  /-- One after another. -/
  | inOrder
  | shortCircuit
  /-- The first, and then one of the other two. -/
  | choice
  | superCall
  deriving DecidableEq, Repr

/-- How the parts of a form are evaluated. -/
def Evaluation.ofForm : Form → Evaluation
  | .function .. | .arrowFunction .. | .classDefinition .. => .closed
  | .call ⟨_, .super⟩ _ => .superCall
  | .binary _ operator _ => if operator.isLogical then .shortCircuit else .inOrder
  | .assignment _ operator _ => if operator.isShortCircuit then .shortCircuit else .inOrder
  | .conditional .. => .choice
  | _ => .inOrder

mutual

/-- The flow of an expression, part by part. Functions and classes are not gone into. -/
def walkTree (here : Path) : Tree → Facts → Flow
  | .mk node _ children, facts =>
    if facts.isUnreachable then .stay facts
    else
      match Evaluation.ofForm node.form with
      | .closed => .stay facts
      | .inOrder => walkTrees here children facts
      | .superCall =>
        (walkTrees here children facts).andThen fun before =>
          ⟨.afterCall, [.called ⟨here, node.span⟩ before, .observed .afterCall]⟩
      | .shortCircuit => walkShortCircuit here children facts
      | .choice => walkChoice here children facts

def walkTrees (here : Path) : List (Step × Tree) → Facts → Flow
  | [], facts => .stay facts
  | (step, tree) :: rest, facts =>
    (walkTree (step :: here) tree facts).andThen (walkTrees here rest)

/-- The second operand may be left out. -/
def walkShortCircuit (here : Path) : List (Step × Tree) → Facts → Flow
  | [], facts => .stay facts
  | (step, tree) :: rest, facts =>
    (walkTree (step :: here) tree facts).andThen fun after =>
      Flow.either (.stay after) (walkTrees here rest after)

/-- One of the branches is evaluated after the test. -/
def walkChoice (here : Path) : List (Step × Tree) → Facts → Flow
  | [], facts => .stay facts
  | (step, tree) :: rest, facts =>
    (walkTree (step :: here) tree facts).andThen (walkOneOf here rest)

def walkOneOf (here : Path) : List (Step × Tree) → Facts → Flow
  | [], _ => .stay .unreachable
  | (step, tree) :: rest, facts =>
    Flow.either (walkTree (step :: here) tree facts) (walkOneOf here rest facts)

end

def walkExpression (here : Path) (node : Node) (facts : Facts) : Flow :=
  walkTree here node.tree facts

def walkOptional (here : Path) (node? : Option Node) (facts : Facts) : Flow :=
  match node? with
  | none => .stay facts
  | some node => walkExpression here node facts

/-- The initial values, in order. -/
def walkDeclarators (here : Path) : Nat → List Node → Facts → Flow
  | _, [], facts => .stay facts
  | index, declarator :: rest, facts =>
    (match declarator with
      | ⟨_, .variableDeclarator _ init⟩ =>
        walkOptional ((here.item .declarations index).child .init) init facts
      | _ => .stay facts).andThen (walkDeclarators here (index + 1) rest)

/-! ## Statements -/

/-- The facts behind a test: those that leave a loop and those that enter its body. -/
structure Split where
  leave : Facts
  enter : Facts
  deriving DecidableEq, Repr

/-- The facts after a loop test: without a test the loop goes on for ever, and a literal
decides by its truth. -/
def splitOnTest (test? : Option Node) (facts : Facts) : Split :=
  match test? with
  | none => ⟨.unreachable, facts⟩
  | some ⟨_, .literal value _⟩ =>
    if value.isTruthy then ⟨.unreachable, facts⟩ else ⟨facts, .unreachable⟩
  | some _ => ⟨facts, facts⟩

/-- A round with the test before the body. What is done between two rounds comes after the body and
after the continue statements in it. -/
def testFirst (target : Target) (test? : Option Node) (test body update : Facts → Flow)
    (entry : Facts) : Round :=
  let tested := test entry
  let split := splitOnTest test? tested.out
  let done := body split.enter
  let updated := update (done.out.join (target.continues done.marks))
  ⟨split.leave, updated.out, tested.marks ++ done.marks ++ updated.marks⟩

/-- A round with the test after the body. -/
def testLast (target : Target) (test? : Option Node) (body test : Facts → Flow) (entry : Facts) :
    Round :=
  let done := body entry
  let tested := test (done.out.join (target.continues done.marks))
  let split := splitOnTest test? tested.out
  ⟨split.leave, split.enter, done.marks ++ tested.marks⟩

/-- A round of a loop over a collection, which may be left before any round. -/
def untested (target : Target) (body : Facts → Flow) (entry : Facts) : Round :=
  let done := body entry
  ⟨entry, done.out.join (target.continues done.marks), done.marks⟩

/-- A statement to which the labels before it belong. -/
def takesLabels : Node → Bool
  | ⟨_, .labeledStatement ..⟩ | ⟨_, .whileStatement ..⟩ | ⟨_, .doWhileStatement ..⟩
  | ⟨_, .forStatement ..⟩ | ⟨_, .forInStatement ..⟩ | ⟨_, .forOfStatement ..⟩
  | ⟨_, .switchStatement ..⟩ => true
  | _ => false

def loopTarget (labels : List String) : Target := ⟨labels, true, true⟩

def switchTarget (labels : List String) : Target := ⟨labels, false, true⟩

def labelTarget (labels : List String) : Target := ⟨labels, false, false⟩

def isDefaultCase : Node → Bool
  | ⟨_, .switchCase none _⟩ => true
  | _ => false

/-- The flow of a return statement. A value makes up for a missing call. -/
def returnFlow (hasValue : Bool) (value : Flow) : Flow :=
  value.andThen fun after =>
    .stop (.returned (if hasValue && !after.isUnreachable then .afterCall else after))

/-- The flow of a finally block for the returns and the normal end of what it follows.
If the normal end is not reached, the block is still gone through for exceptions. -/
def finallyFlow (finalizer : Facts → Flow) (thrown : Facts) (body : Flow) : Flow :=
  let pending := returnedFacts body.marks
  let returning : Flow :=
    if pending.isUnreachable then .stay .unreachable
    else (finalizer pending).andThen fun after => .stop (.returned after)
  let ending : Flow :=
    if body.out.isUnreachable then (finalizer thrown).aside .unreachable
    else finalizer body.out
  ⟨ending.out, withoutReturns body.marks ++ returning.marks ++ ending.marks⟩

mutual

/-- The flow of a statement at a place, with the labels in front of it. An exception may
be thrown before it starts. -/
def walkStatement (labels : List String) (here : Path) : Node → Facts → Flow
  | ⟨_, form⟩, facts => .after (.observed facts) (walkForm labels here form facts)

/-- The flow of a statement, form by form. -/
def walkForm (labels : List String) (here : Path) : Form → Facts → Flow
  | .block body, facts => walkStatements here .body 0 body facts
  | .expressionStatement expression, facts =>
    walkExpression (here.child .expression) expression facts
  | .variableDeclaration declarations _, facts => walkDeclarators here 0 declarations facts
  | .ifStatement test consequent alternate, facts =>
    (walkExpression (here.child .test) test facts).andThen fun after =>
      Flow.either (walkStatement [] (here.child .consequent) consequent after)
        (walkElse (here.child .alternate) alternate after)
  | .returnStatement argument, facts =>
    returnFlow argument.isSome (walkOptional (here.child .argument) argument facts)
  | .throwStatement argument, facts =>
    (walkExpression (here.child .argument) argument facts).andThen fun after =>
      .stop (.observed after)
  | .breakStatement label, facts => .stop (.jumped ⟨false, label.map Ident.name⟩ facts)
  | .continueStatement label, facts => .stop (.jumped ⟨true, label.map Ident.name⟩ facts)
  | .labeledStatement label body, facts =>
    if takesLabels body then walkStatement (label.name :: labels) (here.child .body) body facts
    else
      (labelTarget (label.name :: labels)).enclose
        (walkStatement [] (here.child .body) body facts)
  | .whileStatement test body, facts =>
    runLoop (loopTarget labels) (testFirst (loopTarget labels) (some test)
      (walkExpression (here.child .test) test) (walkStatement [] (here.child .body) body) .stay)
      facts
  | .doWhileStatement body test, facts =>
    runLoop (loopTarget labels) (testLast (loopTarget labels) (some test)
      (walkStatement [] (here.child .body) body) (walkExpression (here.child .test) test)) facts
  | .forStatement init test update body, facts =>
    (walkInit (here.child .init) init facts).andThen
      (runLoop (loopTarget labels) (testFirst (loopTarget labels) test
        (walkOptional (here.child .test) test) (walkStatement [] (here.child .body) body)
        (walkOptional (here.child .update) update)))
  | .forInStatement _ right body, facts | .forOfStatement _ right body, facts =>
    (walkExpression (here.child .right) right facts).andThen
      (runLoop (loopTarget labels) (untested (loopTarget labels)
        (walkStatement [] (here.child .body) body)))
  | .switchStatement discriminant cases, facts =>
    (walkExpression (here.child .discriminant) discriminant facts).andThen fun entry =>
      let flow := (switchTarget labels).enclose (walkCases here 0 cases entry .unreachable)
      if cases.any isDefaultCase then flow else ⟨flow.out.join entry, flow.marks⟩
  | .tryStatement block handler finalizer, facts =>
    let tried := walkStatement [] (here.child .block) block facts
    let thrown := (observedFacts tried.marks).join facts
    let handled := walkHandler (here.child .handler) handler (thrown.join tried.out)
    let body : Flow := ⟨tried.out.join handled.out, tried.marks ++ handled.marks⟩
    match finalizer with
    | none => body
    | some node =>
      finallyFlow (fun entry => walkStatement [] (here.child .finalizer) node entry) thrown body
  | _, facts => .stay facts

def walkStatements (here : Path) (field : Field) (index : Nat) : List Node → Facts → Flow
  | [], facts => .stay facts
  | node :: rest, facts =>
    (walkStatement [] (here.item field index) node facts).andThen
      (walkStatements here field (index + 1) rest)

def walkElse (here : Path) : Option Node → Facts → Flow
  | none, facts => .stay facts
  | some node, facts => walkStatement [] here node facts

def walkInit (here : Path) : Option Node → Facts → Flow
  | none, facts => .stay facts
  | some ⟨_, .variableDeclaration declarations _⟩, facts =>
    .after (.observed facts) (walkDeclarators here 0 declarations facts)
  | some node, facts => walkExpression here node facts

/-- The flow of the cases of a switch. Each is entered from the switch itself and from the
case before it. -/
def walkCases (here : Path) (index : Nat) : List Node → Facts → Facts → Flow
  | [], _, fall => .stay fall
  | ⟨_, .switchCase test consequent⟩ :: rest, entry, fall =>
    ((walkOptional ((here.item .cases index).child .test) test entry).aside fall).andThen
      fun fall =>
        (walkStatements (here.item .cases index) .consequent 0 consequent (entry.join fall)).andThen
          fun fall => walkCases here (index + 1) rest entry fall
  | _ :: rest, entry, fall => walkCases here (index + 1) rest entry fall

/-- Without a catch block nothing goes on. -/
def walkHandler (here : Path) : Option Node → Facts → Flow
  | some ⟨_, .catchClause _ body⟩, facts => walkStatement [] (here.child .body) body facts
  | _, _ => .stay .unreachable

end

/-! ## A whole constructor -/

/-- What is known of a constructor: the facts at its ends, and those at each call. -/
structure PathSummary where
  exits : Facts
  calls : List (CallSite × Facts)
  deriving DecidableEq, Repr

/-- Adds the facts at a call to those known for it. -/
def recordCall (calls : List (CallSite × Facts)) (site : CallSite) (facts : Facts) :
    List (CallSite × Facts) :=
  match calls with
  | [] => [(site, facts)]
  | (known, before) :: rest =>
    if known = site then (known, before.join facts) :: rest
    else (known, before) :: recordCall rest site facts

/-- The calls among marks, each with the facts of all its marks. -/
def callsOf (marks : List Mark) : List (CallSite × Facts) :=
  ((marks.filterMap Mark.called?).filter fun call => !call.2.isUnreachable).foldl
    (fun calls (site, facts) => recordCall calls site facts) []

/-- The summary of a constructor, from the start of its body. -/
def summarize (here : Path) : Node → PathSummary
  | ⟨_, .methodDefinition _ _ ⟨_, .function _ _ _ ⟨_, .block body⟩ _ _⟩ _ _ _⟩ =>
    let flow := walkStatements ((here.child .value).child .body) .body 0 body .start
    ⟨(returnedFacts flow.marks).join flow.out, callsOf flow.marks⟩
  | _ => ⟨.unreachable, []⟩

end TemplateLint.Constructor
