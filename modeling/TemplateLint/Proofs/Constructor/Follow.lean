import TemplateLint.Proofs.Constructor.Parts
import TemplateLint.Proofs.Syntax.View

/-!
# The paths that are followed

The analysis does not follow all paths of a constructor. It goes through a finally block at the
normal end and for returns, while jumps and exceptions pass it by (`Paths.finishing`); it reads of a
declaration only the values and of a loop over a collection only what is gone over; and what is known
after the test of a case is dropped. `follow` gives the paths of statements so read.

Two things are true of them because every way of putting paths together keeps them (`follow_kept`):
every change of the bit can be followed by an exception (`Paths.Watched`), and the bit never decides
where a path leads (`Paths.Uniform`).
-/

namespace TemplateLint.Constructor

open TemplateLint.Syntax

/-! ## Paths that are followed -/

/-- The paths of the values of declarators. What they are given to is passed by. -/
def evaluateValues (here : Path) : Nat → List Node → Paths
  | _, [] => .skip
  | index, ⟨_, .variableDeclarator _ init⟩ :: rest =>
    (evaluate? ((here.item .declarations index).child .init) init).andThen
      (evaluateValues here (index + 1) rest)
  | index, _ :: rest => evaluateValues here (index + 1) rest

/-- The start of a counting loop. -/
def followInit (here : Path) : Option Node → Paths
  | none => .skip
  | some ⟨_, .variableDeclaration declarations _⟩ =>
    .either (.stop .threw) (evaluateValues here 0 declarations)
  | some node => evaluate here node

mutual

/-- The paths of a statement as the analysis reads it. -/
def follow (labels : List String) (here : Path) : Node → Paths
  | ⟨_, form⟩ => .either (.stop .threw) (followForm labels here form)

/-- The paths of a statement, form by form. -/
def followForm (labels : List String) (here : Path) : Form → Paths
  | .block body => followAll here .body 0 body
  | .expressionStatement expression => evaluate (here.child .expression) expression
  | .variableDeclaration declarations _ => evaluateValues here 0 declarations
  | .ifStatement test consequent alternate =>
    (evaluate (here.child .test) test).andThen
      (.either (follow [] (here.child .consequent) consequent)
        (follow? (here.child .alternate) alternate))
  | .returnStatement none => .stop .returned
  | .returnStatement (some argument) =>
    (evaluate (here.child .argument) argument).andThen (.stop fun _ => .returned true)
  | .throwStatement argument =>
    (evaluate (here.child .argument) argument).andThen (.stop .threw)
  | .breakStatement label => .stop (.jumped ⟨false, label.map Ident.name⟩)
  | .continueStatement label => .stop (.jumped ⟨true, label.map Ident.name⟩)
  | .labeledStatement label body =>
    if takesLabels body then follow (label.name :: labels) (here.child .body) body
    else .breaking (labelTarget (label.name :: labels)) (follow [] (here.child .body) body)
  | .whileStatement test body =>
    let tested := evaluate (here.child .test) test
    .loop (loopTarget labels)
      (tested.andThen (.andThen (.entering (some test))
        (.continuing (loopTarget labels) (follow [] (here.child .body) body))))
      (tested.andThen (.leaving (some test)))
  | .doWhileStatement body test =>
    let tested := Paths.andThen
      (.continuing (loopTarget labels) (follow [] (here.child .body) body))
      (evaluate (here.child .test) test)
    .loop (loopTarget labels) (tested.andThen (.entering (some test)))
      (tested.andThen (.leaving (some test)))
  | .forStatement init test update body =>
    let tested := evaluate? (here.child .test) test
    (followInit (here.child .init) init).andThen
      (.loop (loopTarget labels)
        (tested.andThen (.andThen (.entering test)
          (.andThen (.continuing (loopTarget labels) (follow [] (here.child .body) body))
            (evaluate? (here.child .update) update))))
        (tested.andThen (.leaving test)))
  | .forInStatement _ right body | .forOfStatement _ right body =>
    (evaluate (here.child .right) right).andThen
      (.loop (loopTarget labels)
        (.continuing (loopTarget labels) (follow [] (here.child .body) body)) .skip)
  | .switchStatement discriminant cases =>
    (evaluate (here.child .discriminant) discriminant).andThen
      (.either (.guard (!cases.any isDefaultCase))
        (.breaking (switchTarget labels) (followFromAny here 0 cases)))
  | .tryStatement block handler none =>
    followCaught (here.child .handler) (follow [] (here.child .block) block) handler
  | .tryStatement block handler (some finalizer) =>
    .finishing (follow [] (here.child .block) block)
      (followCaught (here.child .handler) (follow [] (here.child .block) block) handler)
      (follow [] (here.child .finalizer) finalizer)
  | _ => .skip

def followAll (here : Path) (field : Field) (index : Nat) : List Node → Paths
  | [] => .skip
  | node :: rest =>
    (follow [] (here.item field index) node).andThen (followAll here field (index + 1) rest)

def follow? (here : Path) : Option Node → Paths
  | none => .skip
  | some node => follow [] here node

/-- The paths of a switch from any of its cases on. -/
def followFromAny (here : Path) (index : Nat) : List Node → Paths
  | [] => .nowhere
  | ⟨_, .switchCase test consequent⟩ :: rest =>
    .either (.aside (evaluate? ((here.item .cases index).child .test) test))
      (.either
        ((followAll (here.item .cases index) .consequent 0 consequent).andThen
          (followThrough here (index + 1) rest))
        (followFromAny here (index + 1) rest))
  | _ :: rest => followFromAny here (index + 1) rest

def followThrough (here : Path) (index : Nat) : List Node → Paths
  | [] => .skip
  | ⟨_, .switchCase _ consequent⟩ :: rest =>
    (followAll (here.item .cases index) .consequent 0 consequent).andThen
      (followThrough here (index + 1) rest)
  | _ :: rest => followThrough here (index + 1) rest

def followCaught (here : Path) (block : Paths) : Option Node → Paths
  | some ⟨_, .catchClause _ body⟩ => .catching block (follow [] (here.child .body) body)
  | _ => block

end

/-- The paths of the body of a constructor as the analysis reads it. -/
def followedPaths (here : Path) (body : List Node) : Paths :=
  followAll ((here.child .value).child .body) .body 0 body

theorem walkDeclarators_matches (here : Path) (index : Nat) (declarators : List Node)
    (facts : Facts) :
    (walkDeclarators here index declarators facts).Matches facts
      (evaluateValues here index declarators) := by
  induction declarators generalizing index facts with
  | nil => exact Flow.matches_stay facts
  | cons declarator rest ih =>
    obtain ⟨span, form⟩ := declarator
    cases form with
    | variableDeclarator target init =>
      exact (walkOptional_matches _ init facts).andThen (ih (index + 1) _)
    | _ => exact ih (index + 1) facts

theorem walkInit_matches (here : Path) (init : Option Node) (facts : Facts) :
    (walkInit here init facts).Matches facts (followInit here init) := by
  rcases init with _ | ⟨span, form⟩
  · rw [walkInit, followInit]
    exact Flow.matches_stay facts
  · cases form with
    | variableDeclaration declarations kind =>
      rw [walkInit, followInit]
      exact (walkDeclarators_matches here 0 declarations facts).afterObserved
    | _ =>
      simp only [walkInit, followInit]
      exact walkExpression_matches here _ facts

theorem follow_starts (labels : List String) (here : Path) (node : Node) (bit : Bool) :
    follow labels here node bit (.threw bit) := by
  obtain ⟨span, form⟩ := node
  exact .inl rfl

/-! ## The bit does not decide where paths lead -/

namespace Outcome

@[simp] theorem goesOn_withCalled (outcome : Outcome) (called : Bool) :
    (outcome.withCalled called).goesOn = outcome.goesOn := by
  cases outcome <;> rfl

theorem exists_eq_withCalled {outcome other : Outcome} {called : Bool}
    (same : outcome.withCalled called = other) : ∃ before, outcome = other.withCalled before := by
  subst same
  cases outcome <;> exact ⟨_, rfl⟩

end Outcome

/-- Where a path leads does not depend on the bit. -/
def Paths.Uniform (paths : Paths) : Prop :=
  ∀ bit other outcome, paths bit outcome → ∃ after, paths other (outcome.withCalled after)

namespace Paths.Uniform

variable {paths second : Paths}

theorem stop {outcome : Bool → Outcome}
    (same : ∀ bit other, (outcome bit).withCalled (outcome other).called = outcome other) :
    Uniform (.stop outcome) := by
  rintro bit other _ rfl
  exact ⟨(outcome other).called, same bit other⟩

theorem skip : Uniform .skip := stop fun _ _ => rfl

theorem nowhere : Uniform .nowhere := by
  rintro bit other outcome ⟨⟩

theorem guard (condition : Bool) : Uniform (.guard condition) := by
  rintro bit other _ ⟨holds, rfl⟩
  exact ⟨other, holds, rfl⟩

theorem superCall (site : CallSite) : Uniform (.superCall site) := by
  rintro bit other _ (rfl | rfl | rfl)
  · exact ⟨other, .inl rfl⟩
  · exact ⟨true, .inr (.inl rfl)⟩
  · exact ⟨true, .inr (.inr rfl)⟩

theorem andThen (first : paths.Uniform) (next : second.Uniform) :
    (paths.andThen second).Uniform := by
  rintro bit other outcome (⟨between, ends, goes⟩ | ⟨goes, stops⟩)
  · obtain ⟨middle, ends'⟩ := first bit other _ ends
    obtain ⟨after, goes'⟩ := next between middle outcome goes
    exact ⟨after, .inl ⟨middle, ends', goes'⟩⟩
  · obtain ⟨after, goes'⟩ := first bit other outcome goes
    exact ⟨after, .inr ⟨goes', by rw [Outcome.goesOn_withCalled, stops]⟩⟩

theorem either (first : paths.Uniform) (next : second.Uniform) :
    (paths.either second).Uniform := by
  rintro bit other outcome (goes | goes)
  · exact (first bit other outcome goes).imp fun _ => .inl
  · exact (next bit other outcome goes).imp fun _ => .inr

theorem aside (all : paths.Uniform) : paths.aside.Uniform := by
  rintro bit other outcome ⟨goes, stops⟩
  obtain ⟨after, goes'⟩ := all bit other outcome goes
  exact ⟨after, goes', by rw [Outcome.goesOn_withCalled, stops]⟩

theorem breaking (target : Target) (all : paths.Uniform) :
    (Paths.breaking target paths).Uniform := by
  rintro bit other outcome (⟨jump, after, goes, caught, ends, rfl⟩ | ⟨goes, free⟩)
  · obtain ⟨later, goes'⟩ := all bit other _ goes
    exact ⟨later, .inl ⟨jump, later, goes', caught, ends, rfl⟩⟩
  · obtain ⟨after, goes'⟩ := all bit other outcome goes
    refine ⟨after, .inr ⟨goes', fun jump later same => ?_⟩⟩
    obtain ⟨before, rfl⟩ := Outcome.exists_eq_withCalled same
    exact free jump before rfl

theorem continuing (target : Target) (all : paths.Uniform) :
    (Paths.continuing target paths).Uniform := by
  rintro bit other outcome (⟨jump, after, goes, caught, again, rfl⟩ | goes)
  · obtain ⟨later, goes'⟩ := all bit other _ goes
    exact ⟨later, .inl ⟨jump, later, goes', caught, again, rfl⟩⟩
  · exact (all bit other outcome goes).imp fun _ => .inr

theorem loop (target : Target) {round leave : Paths} (again : round.Uniform)
    (out : leave.Uniform) : (Paths.loop target round leave).Uniform := by
  have last : (Paths.breaking target (.lastRound round leave)).Uniform :=
    breaking target (out.either again.aside)
  rintro bit other outcome ⟨head, _, goes⟩
  obtain ⟨after, goes'⟩ := last head other outcome goes
  exact ⟨after, other, .refl, goes'⟩

theorem catching {handler : Paths} (all : paths.Uniform) (handled : handler.Uniform) :
    (Paths.catching paths handler).Uniform := by
  rintro bit other outcome (⟨thrown, goes, rest⟩ | ⟨goes, free⟩)
  · obtain ⟨thrown', goes'⟩ := all bit other _ goes
    obtain ⟨after, rest'⟩ := handled thrown thrown' outcome rest
    exact ⟨after, .inl ⟨thrown', goes', rest'⟩⟩
  · obtain ⟨after, goes'⟩ := all bit other outcome goes
    refine ⟨after, .inr ⟨goes', fun thrown same => ?_⟩⟩
    obtain ⟨before, rfl⟩ := Outcome.exists_eq_withCalled same
    exact free before rfl

theorem never_ended (all : paths.Uniform) {bit : Bool}
    (never : ∀ after, ¬ paths bit (.ended after)) (other after : Bool) :
    ¬ paths other (.ended after) := by
  intro ends
  obtain ⟨before, ends'⟩ := all other bit _ ends
  exact never before ends'

theorem finishing {block last : Paths} (blocks : block.Uniform) (all : paths.Uniform)
    (lasts : last.Uniform) : (Paths.finishing block paths last).Uniform := by
  rintro bit other outcome (⟨middle, ends, goes⟩ | ⟨middle, returns, goes⟩ | ⟨goes, stops, free⟩ |
    ⟨never, thrown, throws, goes⟩)
  · obtain ⟨middle', ends'⟩ := all bit other _ ends
    obtain ⟨after, goes'⟩ := lasts middle middle' outcome goes
    exact ⟨after, .inl ⟨middle', ends', goes'⟩⟩
  · obtain ⟨middle', returns'⟩ := all bit other _ returns
    obtain ⟨after, goes'⟩ := lasts.andThen (stop fun _ _ => rfl) middle middle' outcome goes
    exact ⟨after, .inr (.inl ⟨middle', returns', goes'⟩)⟩
  · obtain ⟨after, goes'⟩ := all bit other outcome goes
    refine ⟨after, .inr (.inr (.inl ⟨goes', by rw [Outcome.goesOn_withCalled, stops], ?_⟩))⟩
    intro later same
    obtain ⟨before, rfl⟩ := Outcome.exists_eq_withCalled same
    exact free before rfl
  · obtain ⟨thrown', throws'⟩ := blocks bit other _ throws
    obtain ⟨after, goes'⟩ := lasts.aside thrown thrown' outcome goes
    exact ⟨after, .inr (.inr (.inr ⟨all.never_ended never other, thrown', throws', goes'⟩))⟩

end Paths.Uniform

/-! ## What all paths of expressions have in common -/

/-- A property of paths at a place that every way of putting the paths of expressions together
keeps, and that what is at a place has from what is below it. -/
structure Paths.Hereditary (holds : Path → Paths → Prop) : Prop where
  skip (here : Path) : holds here .skip
  superCall (here : Path) (span : Span) : holds here (.superCall ⟨here, span⟩)
  andThen {here : Path} {first second : Paths} :
    holds here first → holds here second → holds here (first.andThen second)
  either {here : Path} {first second : Paths} :
    holds here first → holds here second → holds here (first.either second)
  child {here : Path} {step : Step} {paths : Paths} : holds (step :: here) paths → holds here paths

section Hereditary

variable {holds : Path → Paths → Prop} (hereditary : Paths.Hereditary holds)
include hereditary

theorem Paths.Hereditary.evaluateTrees {here : Path} {trees : List (Step × Tree)}
    (each : ∀ step tree, (step, tree) ∈ trees → holds here (evaluateTree (step :: here) tree)) :
    holds here (evaluateTrees here trees) := by
  induction trees with
  | nil =>
    exact hereditary.skip here
  | cons child rest ih =>
    exact hereditary.andThen (each _ _ (.head _))
      (ih fun step tree member => each step tree (.tail _ member))

theorem Paths.Hereditary.evaluateTree (here : Path) (tree : Tree) :
    holds here (evaluateTree here tree) := by
  induction tree using Tree.children_induction generalizing here with
  | step node layout children ih =>
    obtain ⟨span, form⟩ := node
    have each := fun step tree member => hereditary.child (ih step tree member (step :: here))
    unfold Constructor.evaluateTree
    split
    · exact hereditary.skip here
    · exact hereditary.skip here
    · exact hereditary.skip here
    · exact hereditary.andThen (hereditary.evaluateTrees each) (hereditary.superCall here span)
    · exact hereditary.andThen (each _ _ (by simp))
        (hereditary.either (each _ _ (by simp)) (each _ _ (by simp)))
    · refine hereditary.andThen (each _ _ (by simp)) ?_
      split
      · exact hereditary.either (hereditary.skip here) (each _ _ (by simp))
      · exact each _ _ (by simp)
    · refine hereditary.andThen (each _ _ (by simp)) ?_
      split
      · exact hereditary.either (hereditary.skip here) (each _ _ (by simp))
      · exact each _ _ (by simp)
    · exact hereditary.evaluateTrees each

end Hereditary

theorem Paths.Uniform.hereditary : Paths.Hereditary fun _ => Paths.Uniform where
  skip _ := .skip
  superCall _ _ := .superCall _
  andThen := .andThen
  either := .either
  child := id

theorem evaluate_uniform (here : Path) (node : Node) : (evaluate here node).Uniform :=
  Paths.Uniform.hereditary.evaluateTree here node.tree

/-! ## What all paths that are followed have in common -/

/-- A property of the paths of expressions and jumps that every way of putting paths together
keeps. -/
structure Paths.Kept (holds : Paths → Prop) : Prop where
  evaluate (here : Path) (node : Node) : holds (evaluate here node)
  skip : holds .skip
  nowhere : holds .nowhere
  guard (condition : Bool) : holds (.guard condition)
  threw : holds (.stop .threw)
  jumped (jump : Jump) : holds (.stop (.jumped jump))
  returned (value : Bool → Bool) : holds (.stop fun bit => .returned (value bit))
  andThen {first second : Paths} : holds first → holds second → holds (first.andThen second)
  either {first second : Paths} : holds first → holds second → holds (first.either second)
  aside {paths : Paths} : holds paths → holds paths.aside
  breaking (target : Target) {paths : Paths} : holds paths → holds (.breaking target paths)
  continuing (target : Target) {paths : Paths} : holds paths → holds (.continuing target paths)
  loop (target : Target) {round leave : Paths} : holds round → holds leave →
    holds (.loop target round leave)
  catching {paths handler : Paths} : holds paths → holds handler →
    (∀ bit, handler bit (.threw bit)) → holds (.catching paths handler)
  finishing {block caught last : Paths} : holds block → holds caught → holds last →
    (∀ bit, last bit (.threw bit)) → holds (.finishing block caught last)

section Kept

variable {holds : Paths → Prop} (kept : Paths.Kept holds)
include kept

theorem Paths.Kept.evaluate? (here : Path) (node? : Option Node) :
    holds (evaluate? here node?) := by
  cases node? with
  | none => exact kept.skip
  | some node => exact kept.evaluate here node

theorem Paths.Kept.evaluateValues (here : Path) (index : Nat) (declarators : List Node) :
    holds (evaluateValues here index declarators) := by
  induction declarators generalizing index with
  | nil => exact kept.skip
  | cons declarator rest ih =>
    obtain ⟨span, form⟩ := declarator
    cases form with
    | variableDeclarator target init =>
      exact kept.andThen (kept.evaluate? _ init) (ih (index + 1))
    | _ => exact ih (index + 1)

theorem Paths.Kept.init (here : Path) (init : Option Node) : holds (followInit here init) := by
  rcases init with _ | ⟨span, form⟩
  · exact kept.skip
  · cases form with
    | variableDeclaration declarations kind =>
      exact kept.either kept.threw (kept.evaluateValues here 0 declarations)
    | _ =>
      exact kept.evaluate here _

mutual

/-- What every way of putting paths together keeps is true of the paths of statements. -/
theorem follow_kept (labels : List String) (here : Path) :
    ∀ node : Node, holds (follow labels here node)
  | ⟨_, form⟩ => by
    exact kept.either kept.threw (followForm_kept labels here form)

theorem followForm_kept (labels : List String) (here : Path) (form : Form) :
    holds (followForm labels here form) := by
  cases form with
  | block body =>
    exact followAll_kept here .body 0 body
  | expressionStatement expression =>
    exact kept.evaluate _ expression
  | variableDeclaration declarations kind =>
    exact kept.evaluateValues here 0 declarations
  | ifStatement test consequent alternate =>
    exact kept.andThen (kept.evaluate _ test)
      (kept.either (follow_kept [] _ consequent) (follow?_kept _ alternate))
  | returnStatement argument =>
    cases argument with
    | none =>
      exact kept.returned id
    | some argument =>
      exact kept.andThen (kept.evaluate _ argument) (kept.returned _)
  | throwStatement argument =>
    exact kept.andThen (kept.evaluate _ argument) kept.threw
  | breakStatement label | continueStatement label =>
    exact kept.jumped _
  | labeledStatement label body =>
    rw [followForm]
    split
    · exact follow_kept _ _ body
    · exact kept.breaking _ (follow_kept _ _ body)
  | whileStatement test body =>
    have round := kept.continuing (loopTarget labels) (follow_kept [] (here.child .body) body)
    have tested := kept.evaluate (here.child .test) test
    rw [followForm]
    exact kept.loop _ (kept.andThen tested (kept.andThen (kept.guard _) round))
      (kept.andThen tested (kept.guard _))
  | doWhileStatement body test =>
    have round := kept.continuing (loopTarget labels) (follow_kept [] (here.child .body) body)
    have tested := kept.andThen round (kept.evaluate (here.child .test) test)
    rw [followForm]
    exact kept.loop _ (kept.andThen tested (kept.guard _)) (kept.andThen tested (kept.guard _))
  | forStatement init test update body =>
    have round := kept.continuing (loopTarget labels) (follow_kept [] (here.child .body) body)
    have tested := kept.evaluate? (here.child .test) test
    have updated := kept.andThen round (kept.evaluate? (here.child .update) update)
    rw [followForm]
    refine kept.andThen (kept.init _ init) (kept.loop _ ?_ ?_)
    · exact kept.andThen tested (kept.andThen (kept.guard _) updated)
    · exact kept.andThen tested (kept.guard _)
  | forInStatement left right body | forOfStatement left right body =>
    have round := kept.continuing (loopTarget labels) (follow_kept [] (here.child .body) body)
    rw [followForm]
    exact kept.andThen (kept.evaluate _ right) (kept.loop _ round kept.skip)
  | switchStatement discriminant cases =>
    rw [followForm]
    refine kept.andThen (kept.evaluate _ discriminant) (kept.either (kept.guard _) ?_)
    exact kept.breaking _ (followFromAny_kept here 0 cases)
  | tryStatement block handler finalizer =>
    have blocks := follow_kept [] (here.child .block) block
    have caught := followCaught_kept (here.child .handler) blocks handler
    cases finalizer with
    | none =>
      rw [followForm]
      exact caught
    | some finalizer =>
      rw [followForm]
      exact kept.finishing blocks caught (follow_kept [] _ finalizer) (follow_starts _ _ _)
  | _ =>
    simp only [followForm]
    exact kept.skip

theorem followAll_kept (here : Path) (field : Field) (index : Nat) :
    ∀ nodes : List Node, holds (followAll here field index nodes)
  | [] => by
    exact kept.skip
  | node :: rest => by
    exact kept.andThen (follow_kept _ _ node) (followAll_kept here field (index + 1) rest)

theorem follow?_kept (here : Path) : ∀ node? : Option Node, holds (follow? here node?)
  | none => by
    exact kept.skip
  | some node => by
    exact follow_kept _ _ node

theorem followFromAny_kept (here : Path) (index : Nat) :
    ∀ cases : List Node, holds (followFromAny here index cases)
  | [] => by
    exact kept.nowhere
  | ⟨span, form⟩ :: rest => by
    have others := followFromAny_kept here (index + 1) rest
    cases form with
    | switchCase test consequent =>
      refine kept.either (kept.aside (kept.evaluate? _ test)) (kept.either ?_ others)
      exact kept.andThen (followAll_kept _ _ 0 consequent)
        (followThrough_kept here (index + 1) rest)
    | _ =>
      exact others

theorem followThrough_kept (here : Path) (index : Nat) :
    ∀ cases : List Node, holds (followThrough here index cases)
  | [] => by
    exact kept.skip
  | ⟨span, form⟩ :: rest => by
    have others := followThrough_kept here (index + 1) rest
    cases form with
    | switchCase test consequent =>
      exact kept.andThen (followAll_kept _ _ 0 consequent) others
    | _ =>
      exact others

theorem followCaught_kept (here : Path) {block : Paths} (blocks : holds block) :
    ∀ handler : Option Node, holds (followCaught here block handler)
  | none => by
    exact blocks
  | some ⟨span, form⟩ => by
    cases form with
    | catchClause param body =>
      exact kept.catching blocks (follow_kept _ _ body) (follow_starts _ _ body)
    | _ =>
      exact blocks

end

end Kept

theorem Paths.Uniform.kept : Paths.Kept Paths.Uniform where
  evaluate := evaluate_uniform
  skip := .skip
  nowhere := .nowhere
  guard := .guard
  threw := .stop fun _ _ => rfl
  jumped _ := .stop fun _ _ => rfl
  returned _ := .stop fun _ _ => rfl
  andThen := .andThen
  either := .either
  aside := .aside
  breaking target := .breaking target
  continuing target := .continuing target
  loop target := .loop target
  catching all handled _ := all.catching handled
  finishing blocks all lasts _ := .finishing blocks all lasts

theorem Paths.Watched.finishing {block caught last : Paths} (all : caught.Watched)
    (lasts : last.Watched) (starts : ∀ bit, last bit (.threw bit)) :
    (Paths.finishing block caught last).Watched := by
  -- What the block is entered with is seen by an exception before its first statement.
  have seen : ∀ entry outcome, last entry outcome → (∀ after, outcome ≠ .returned after) →
      last entry (.threw outcome.called) := by
    intro entry outcome goes other
    rcases lasts entry outcome goes other with same | thrown
    · rw [same]
      exact starts entry
    · exact thrown
  rintro bit outcome (⟨middle, ends, goes⟩ | ⟨middle, returns, goes⟩ | ⟨goes, _, _⟩ |
    ⟨never, thrown, throws, goes, _⟩) other
  · exact .inr (.inl ⟨middle, ends, seen middle outcome goes other⟩)
  · rcases goes with ⟨after, _, rfl⟩ | ⟨goes, _⟩
    · exact absurd rfl (other after)
    · exact .inr (.inr (.inl ⟨middle, returns, .inr ⟨seen middle outcome goes other, rfl⟩⟩))
  · refine (all bit outcome goes other).imp_right fun thrown => ?_
    exact .inr (.inr (.inl ⟨thrown, rfl, by simp⟩))
  · exact .inr (.inr (.inr (.inr ⟨never, thrown, throws, seen thrown outcome goes other, rfl⟩)))

theorem Paths.Watched.kept : Paths.Kept Paths.Watched where
  evaluate := evaluate_watched
  skip := .skip
  nowhere := .nowhere
  guard := .guard
  threw := .stop fun _ => rfl
  jumped _ := .stop fun _ => rfl
  returned := .stop_returned
  andThen := .andThen
  either := .either
  aside := .aside
  breaking target := .breaking target
  continuing target := .continuing target
  loop target := .loop target
  catching := .catching
  finishing _ := .finishing

end TemplateLint.Constructor
