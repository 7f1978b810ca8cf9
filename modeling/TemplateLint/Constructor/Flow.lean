import TemplateLint.Syntax.Tree

/-!
# Flows

The analysis of a constructor follows a set of facts through its statements: whether `super()`
has been called on the paths that reach a point. What a statement does is a `Flow`: the facts
with which it is left at its end, and marks for everything else that happens on the way.

A jump target (`Target`) takes the jumps to it out of the marks of what it encloses. A loop is
gone through again until the facts at its entry no longer change (`Loop.run`).
-/

namespace TemplateLint.Constructor

open TemplateLint.Syntax

/-- What holds on the paths that reach a point: there is one on which `super()` has not
been called, and there is one on which it has. -/
structure Facts where
  notCalled : Bool
  called : Bool
  deriving DecidableEq, Repr

namespace Facts

def unreachable : Facts := ⟨false, false⟩

def start : Facts := ⟨true, false⟩

def afterCall : Facts := ⟨false, true⟩

/-- What is possible on either way. -/
def join (a b : Facts) : Facts := ⟨a.notCalled || b.notCalled, a.called || b.called⟩

def isUnreachable (facts : Facts) : Bool := !facts.notCalled && !facts.called

def joinAll (facts : List Facts) : Facts := facts.foldl join unreachable

end Facts

/-- A call of `super()`. -/
structure CallSite where
  place : Path
  span : Span
  deriving DecidableEq, Repr

/-- A jump to the end of its target, or to the next round of it. -/
structure Jump where
  continues : Bool
  label? : Option String
  deriving DecidableEq, Repr

/-- Something that happens on the way through a statement, with the facts there. -/
inductive Mark where
  | returned (facts : Facts)
  | jumped (jump : Jump) (facts : Facts)
  /-- An exception may be thrown here. -/
  | observed (facts : Facts)
  | called (site : CallSite) (facts : Facts)
  deriving DecidableEq, Repr

namespace Mark

def returned? : Mark → Option Facts
  | .returned facts => some facts
  | _ => none

def observed? : Mark → Option Facts
  | .observed facts => some facts
  | _ => none

def called? : Mark → Option (CallSite × Facts)
  | .called site facts => some (site, facts)
  | _ => none

end Mark

def returnedFacts (marks : List Mark) : Facts := .joinAll (marks.filterMap Mark.returned?)

def observedFacts (marks : List Mark) : Facts := .joinAll (marks.filterMap Mark.observed?)

def withoutReturns (marks : List Mark) : List Mark :=
  marks.filter fun mark => mark.returned?.isNone

/-- What a statement does, started with given facts. -/
structure Flow where
  out : Facts
  marks : List Mark
  deriving DecidableEq, Repr

namespace Flow

/-- Goes on with the facts and leaves no marks. -/
def stay (facts : Facts) : Flow := ⟨facts, []⟩

/-- Leaves a mark and does not go on. -/
def stop (mark : Mark) : Flow := ⟨.unreachable, [mark]⟩

/-- The second starts from the facts at the end of the first. -/
def andThen (flow : Flow) (next : Facts → Flow) : Flow :=
  let rest := next flow.out
  ⟨rest.out, flow.marks ++ rest.marks⟩

/-- One of two flows. -/
def either (a b : Flow) : Flow := ⟨a.out.join b.out, a.marks ++ b.marks⟩

/-- The marks of a flow, with other facts to go on with. -/
def aside (flow : Flow) (facts : Facts) : Flow := ⟨facts, flow.marks⟩

def after (mark : Mark) (flow : Flow) : Flow := ⟨flow.out, mark :: flow.marks⟩

end Flow

/-! ## Jump targets -/

/-- A statement that jumps may lead to. -/
structure Target where
  labels : List String
  isLoop : Bool
  isBreakable : Bool
  deriving DecidableEq, Repr

namespace Target

/-- Whether a jump from inside, taken past all inner targets, leads to this one. -/
def catches (target : Target) (jump : Jump) : Bool :=
  match jump.label? with
  | some label => target.labels.contains label
  | none => if jump.continues then target.isLoop else target.isBreakable

/-- The facts of a jump that the target catches. -/
def arrival? (target : Target) (continues : Bool) : Mark → Option Facts
  | .jumped jump facts =>
    if target.catches jump && jump.continues == continues then some facts else none
  | _ => none

/-- The facts of the breaks that a target catches. -/
def breaks (target : Target) (marks : List Mark) : Facts :=
  .joinAll (marks.filterMap (target.arrival? false))

/-- The facts of the continues that a target catches. -/
def continues (target : Target) (marks : List Mark) : Facts :=
  .joinAll (marks.filterMap (target.arrival? true))

def passes (target : Target) : Mark → Bool
  | .jumped jump _ => !target.catches jump
  | _ => true

/-- The marks that a target lets through. -/
def pass (target : Target) (marks : List Mark) : List Mark := marks.filter target.passes

/-- The flow of a statement that catches the jumps out of its body. -/
def enclose (target : Target) (flow : Flow) : Flow :=
  ⟨flow.out.join (target.breaks flow.marks), target.pass flow.marks⟩

end Target

/-! ## Loops -/

/-- One round of a loop, from the facts at its head. -/
structure Round where
  leave : Facts
  /-- The facts with which it goes into the next round. -/
  back : Facts
  marks : List Mark
  deriving DecidableEq, Repr

/-- Rounds of a loop until the facts at the entry stay the same. They are the facts
before the loop and those of the last round's end; as they can only grow, and have two
parts, two more rounds than the first are enough. -/
def runRounds (target : Target) (round : Facts → Round) (before : Facts) : Nat → Facts → Flow
  | more, entry =>
    let current := round entry
    let last : Flow := target.enclose ⟨current.leave, current.marks⟩
    let next := before.join current.back
    match more with
    | 0 => last
    | more + 1 =>
      if next = entry then last
      else
        let rest := runRounds target round before more next
        ⟨rest.out, target.pass current.marks ++ rest.marks⟩

/-- The flow of a loop from the facts before it. -/
def runLoop (target : Target) (round : Facts → Round) (before : Facts) : Flow :=
  runRounds target round before 2 before

end TemplateLint.Constructor
