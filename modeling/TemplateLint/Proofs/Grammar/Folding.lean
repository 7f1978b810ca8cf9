import TemplateLint.Grammar.Expression
import TemplateLint.Proofs.Grammar.Tracks

/-!
# Operators are grouped by precedence

A flat list of operands and operators can be grouped in many ways (`Grouping`). Exactly one of them
is ordered (`Grouping.Ordered`), and folding builds the tree of that one
(`foldOperators_grouping`).

The argument goes through insertion at the right end (`Grouping.Ordered.push`). The operands that
wait while the list is folded are the left sides along the right edge of the grouping so far
(`Grouping.waiting`), so one step of folding is one push (`waiting_push`).
-/

namespace TemplateLint.Grammar

open TemplateLint.Syntax

/-! ## Groupings -/

/-- A way of grouping operands with the operators between them. An operand may be any node, also
one that is built with an operator. -/
inductive Grouping where
  | operand (node : Node)
  | apply (left : Grouping) (op : BinaryOp) (right : Grouping)

namespace Grouping

def first : Grouping → Node
  | .operand node => node
  | .apply left _ _ => left.first

def last : Grouping → Node
  | .operand node => node
  | .apply _ _ right => right.last

/-- The operators of a grouping in order, each with the operand behind it. -/
def rest : Grouping → List (BinaryOp × Node)
  | .operand _ => []
  | .apply left op right => left.rest ++ (op, right.first) :: right.rest

/-- The operator that is applied last. -/
def top? : Grouping → Option BinaryOp
  | .operand _ => none
  | .apply _ op _ => some op

def operands (grouping : Grouping) : List Node :=
  grouping.first :: grouping.rest.map Prod.snd

theorem operands_apply (left : Grouping) (op : BinaryOp) (right : Grouping) :
    (apply left op right).operands = left.operands ++ right.operands := by
  simp [operands, first, rest]

/-- A grouping of the given operands and operators. -/
def Groups (grouping : Grouping) (first : Node) (rest : List (BinaryOp × Node)) : Prop :=
  grouping.first = first ∧ grouping.rest = rest

/-- Each operator is applied after the operators under it: on its left they bind tighter, or equally
tight unless the operator is `**`; on its right they bind tighter, or both are `**`. -/
def Ordered : Grouping → Prop
  | .operand _ => True
  | .apply left op right =>
    left.Ordered ∧ right.Ordered
      ∧ (∀ under ∈ left.top?, op.precedence < under.precedence
          ∨ under.precedence = op.precedence ∧ op ≠ .power)
      ∧ (∀ under ∈ right.top?, op.precedence < under.precedence
          ∨ op = .power ∧ under = .power)

/-- The syntax tree of a grouping: operands stay as they are, and each node built with an operator
spans from its first operand to its last and is named for its operator. -/
inductive Builds : Grouping → Node → Prop where
  | operand (node : Node) : Builds (.operand node) node
  | apply {left right : Grouping} {op : BinaryOp} {leftNode rightNode built : Node}
      (leftBuilds : Builds left leftNode) (rightBuilds : Builds right rightNode)
      (form : built.form = .binary leftNode op rightNode)
      (span : built.span = ⟨left.first.start, right.last.stop⟩)
      (name : built.typeName =
        if op.text ∈ ["&&", "||", "??"] then "LogicalExpression" else "BinaryExpression") :
      Builds (.apply left op right) built

/-- The node that a grouping stands for. -/
def node : Grouping → Node
  | .operand node => node
  | .apply left op right => joinOperands left.node op right.node

theorem start_node (grouping : Grouping) : grouping.node.start = grouping.first.start := by
  induction grouping with
  | operand node => rfl
  | apply left op right leftIH _ => exact leftIH

theorem stop_node (grouping : Grouping) : grouping.node.stop = grouping.last.stop := by
  induction grouping with
  | operand node => rfl
  | apply left op right _ rightIH => exact rightIH

theorem typeName_joinOperands (left : Node) (op : BinaryOp) (right : Node) :
    (joinOperands left op right).typeName =
      if op.text ∈ ["&&", "||", "??"] then "LogicalExpression" else "BinaryExpression" := by
  cases op <;> rfl

theorem builds_node (grouping : Grouping) : grouping.Builds grouping.node := by
  induction grouping with
  | operand node => exact .operand node
  | apply left op right leftIH rightIH =>
    refine .apply leftIH rightIH rfl ?_ (typeName_joinOperands ..)
    rw [← start_node, ← stop_node]
    rfl

theorem builds_iff {grouping : Grouping} {built : Node} :
    grouping.Builds built ↔ built = grouping.node := by
  refine ⟨fun builds => ?_, fun same => same ▸ builds_node grouping⟩
  induction builds with
  | operand node => rfl
  | @apply left right op leftNode rightNode built _ _ form span _ leftIH rightIH =>
    obtain ⟨_, _⟩ := built
    subst leftIH rightIH form span
    rw [← start_node, ← stop_node]
    rfl

/-! ## The order of two operators -/

theorem appliesBefore_iff {waiting next : BinaryOp} :
    appliesBefore waiting next = true ↔ next.precedence < waiting.precedence
      ∨ waiting.precedence = next.precedence ∧ next ≠ .power := by
  simp [appliesBefore]

theorem eq_power_of_precedence {op : BinaryOp}
    (tightest : op.precedence = BinaryOp.power.precedence) : op = .power := by
  revert tightest
  cases op <;> decide

theorem appliesBefore_eq_false_iff {waiting next : BinaryOp} :
    appliesBefore waiting next = false ↔ waiting.precedence < next.precedence
      ∨ waiting = .power ∧ next = .power := by
  rw [← Bool.not_eq_true, appliesBefore_iff]
  constructor
  · intro later
    by_cases power : next = .power
    · subst power
      by_cases same : waiting.precedence = BinaryOp.power.precedence
      · exact .inr ⟨eq_power_of_precedence same, rfl⟩
      · exact .inl (by omega)
    · simp only [power, ne_eq, not_false_eq_true, and_true] at later
      exact .inl (by omega)
  · rintro (tighter | ⟨rfl, rfl⟩)
    · omega
    · simp

theorem ordered_apply {left right : Grouping} {op : BinaryOp} :
    (Grouping.apply left op right).Ordered ↔ left.Ordered ∧ right.Ordered
      ∧ (∀ under ∈ left.top?, appliesBefore under op = true)
      ∧ (∀ under ∈ right.top?, appliesBefore op under = false) := by
  simp only [Ordered, appliesBefore_iff, appliesBefore_eq_false_iff]

theorem appliesBefore_trans {outer inner next : BinaryOp} (under : appliesBefore outer inner = false)
    (before : appliesBefore outer next = true) : appliesBefore inner next = true := by
  rw [appliesBefore_eq_false_iff] at under
  rw [appliesBefore_iff] at before ⊢
  rcases under with tighter | ⟨rfl, rfl⟩
  · exact .inl (by omega)
  · exact before

/-! ## Pushing at the right end -/

/-- Adds an operator and an operand on the right, below the operators that are not applied before
it. -/
def push (op : BinaryOp) (next : Node) : Grouping → Grouping
  | .operand node => .apply (.operand node) op (.operand next)
  | .apply left above right =>
    if appliesBefore above op then .apply (.apply left above right) op (.operand next)
    else .apply left above (right.push op next)

def pushAll (grouping : Grouping) (rest : List (BinaryOp × Node)) : Grouping :=
  rest.foldl (fun grouping (op, next) => grouping.push op next) grouping

section Push

variable {grouping left right : Grouping} {op above : BinaryOp} {next : Node}

theorem push_of_before (before : ∀ under ∈ grouping.top?, appliesBefore under op = true) :
    grouping.push op next = .apply grouping op (.operand next) := by
  cases grouping with
  | operand node => rfl
  | apply left above right => rw [push, if_pos (before above rfl)]

theorem push_of_after (after : appliesBefore above op = false) :
    (Grouping.apply left above right).push op next = .apply left above (right.push op next) := by
  simp [push, after]

theorem before_or_after (grouping : Grouping) (op : BinaryOp) :
    (∀ under ∈ grouping.top?, appliesBefore under op = true)
      ∨ ∃ left above right, grouping = .apply left above right
          ∧ appliesBefore above op = false := by
  cases grouping with
  | operand node => exact .inl (by simp [top?])
  | apply left above right =>
    cases before : appliesBefore above op with
    | true => exact .inl (by simp [top?, before])
    | false => exact .inr ⟨left, above, right, rfl, before⟩

theorem first_push : (grouping.push op next).first = grouping.first := by
  induction grouping with
  | operand node => rfl
  | apply left above right _ _ => rw [push]; split <;> rfl

theorem last_push : (grouping.push op next).last = next := by
  induction grouping with
  | operand node => rfl
  | apply left above right _ ih =>
    rw [push]
    split
    · rfl
    · exact ih

theorem rest_push : (grouping.push op next).rest = grouping.rest ++ [(op, next)] := by
  induction grouping with
  | operand node => rfl
  | apply left above right _ ih =>
    rw [push]
    split
    · rfl
    · simp [rest, ih, first_push]

theorem top?_push {under : BinaryOp} (top : under ∈ (grouping.push op next).top?) :
    under = op ∨ under ∈ grouping.top? := by
  rcases before_or_after grouping op with before | ⟨left, above, right, rfl, after⟩
  · rw [push_of_before before] at top
    exact .inl (Option.some.inj top).symm
  · rw [push_of_after after] at top
    exact .inr top

/-- An operand that is added at the right end keeps a grouping ordered. -/
theorem Ordered.push (ordered : grouping.Ordered) : (grouping.push op next).Ordered := by
  induction grouping with
  | operand node => simp [Grouping.push, ordered_apply, Ordered, top?]
  | apply left above right _ ih =>
    rcases before_or_after (.apply left above right) op with before | ⟨_, _, _, same, after⟩
    · rw [push_of_before before, ordered_apply]
      exact ⟨ordered, trivial, before, by simp [top?]⟩
    · cases same
      obtain ⟨leftOrdered, rightOrdered, leftUnder, rightUnder⟩ := ordered_apply.1 ordered
      rw [push_of_after after, ordered_apply]
      refine ⟨leftOrdered, ih rightOrdered, leftUnder, fun under top => ?_⟩
      rcases top?_push top with rfl | top
      · exact after
      · exact rightUnder under top

end Push

theorem pushAll_spec (grouping : Grouping) (ordered : grouping.Ordered)
    (rest : List (BinaryOp × Node)) :
    (grouping.pushAll rest).Groups grouping.first (grouping.rest ++ rest)
      ∧ (grouping.pushAll rest).Ordered := by
  induction rest generalizing grouping with
  | nil => exact ⟨⟨rfl, (List.append_nil _).symm⟩, ordered⟩
  | cons entry rest ih =>
    have pushed := ih (grouping.push entry.1 entry.2) ordered.push
    rw [first_push, rest_push, List.append_assoc] at pushed
    exact pushed

/-! ## An ordered grouping is determined by its operands and operators -/

theorem Ordered.precedence_le {grouping : Grouping} (ordered : grouping.Ordered) :
    ∀ top ∈ grouping.top?, ∀ entry ∈ grouping.rest, top.precedence ≤ entry.1.precedence := by
  induction grouping with
  | operand node => simp [top?]
  | apply left op right leftIH rightIH =>
    obtain ⟨leftOrdered, rightOrdered, leftUnder, rightUnder⟩ := ordered
    rintro _ ⟨⟩ entry member
    -- An operator on either side binds at least as tightly as the top of that side.
    have through {side : Grouping} (inside : entry ∈ side.rest)
        (under : ∀ top ∈ side.top?, op.precedence ≤ top.precedence)
        (sideIH : ∀ top ∈ side.top?, ∀ entry ∈ side.rest, top.precedence ≤ entry.1.precedence) :
        op.precedence ≤ entry.1.precedence := by
      cases side with
      | operand node => cases inside
      | apply _ top _ => exact Nat.le_trans (under top rfl) (sideIH top rfl entry inside)
    rcases List.mem_append.1 member with inLeft | inRight
    · refine through inLeft (fun top under => ?_) (leftIH leftOrdered)
      rcases leftUnder top under with tighter | ⟨same, _⟩ <;> omega
    · rcases List.mem_cons.1 inRight with rfl | inRight
      · exact Nat.le_refl _
      · refine through inRight (fun top under => ?_) (rightIH rightOrdered)
        rcases rightUnder top under with tighter | ⟨rfl, rfl⟩ <;> omega

theorem Ordered.after_of_mem_rest {left right : Grouping} {op : BinaryOp}
    (ordered : (Grouping.apply left op right).Ordered) {entry : BinaryOp × Node}
    (member : entry ∈ right.rest) : appliesBefore op entry.1 = false := by
  obtain ⟨_, rightOrdered, _, rightUnder⟩ := ordered
  cases right with
  | operand node => cases member
  | apply _ under _ =>
    have least := rightOrdered.precedence_le under rfl entry member
    rw [appliesBefore_eq_false_iff]
    rcases rightUnder under rfl with tighter | ⟨rfl, rfl⟩
    · exact .inl (by omega)
    · have most : entry.1.precedence ≤ BinaryOp.power.precedence := by
        cases entry.1 <;> decide
      exact .inr ⟨rfl, eq_power_of_precedence (by omega)⟩

theorem pushAll_apply {left right : Grouping} {op : BinaryOp} {rest : List (BinaryOp × Node)}
    (after : ∀ entry ∈ rest, appliesBefore op entry.1 = false) :
    (Grouping.apply left op right).pushAll rest = .apply left op (right.pushAll rest) := by
  induction rest generalizing right with
  | nil => rfl
  | cons entry rest ih =>
    obtain ⟨now, later⟩ := List.forall_mem_cons.1 after
    calc (Grouping.apply left op right).pushAll (entry :: rest)
        = (Grouping.apply left op (right.push entry.1 entry.2)).pushAll rest :=
          congrArg (pushAll · rest) (push_of_after now)
      _ = .apply left op ((right.push entry.1 entry.2).pushAll rest) := ih later

theorem Ordered.eq_pushAll {grouping : Grouping} (ordered : grouping.Ordered) :
    (operand grouping.first).pushAll grouping.rest = grouping := by
  induction grouping with
  | operand node => rfl
  | apply left op right leftIH rightIH =>
    obtain ⟨leftOrdered, rightOrdered, leftUnder, _⟩ := ordered_apply.1 ordered
    calc (operand left.first).pushAll (left.rest ++ (op, right.first) :: right.rest)
        = (((operand left.first).pushAll left.rest).push op right.first).pushAll right.rest :=
          List.foldl_append
      _ = (Grouping.apply left op (operand right.first)).pushAll right.rest := by
          rw [leftIH leftOrdered, push_of_before leftUnder]
      _ = .apply left op ((operand right.first).pushAll right.rest) :=
          pushAll_apply fun _ member => ordered.after_of_mem_rest member
      _ = .apply left op right := by rw [rightIH rightOrdered]

/-! ## Folding pushes -/

/-- The operands along the right edge that still wait for their right side, the innermost first. -/
def waiting : Grouping → List (Node × BinaryOp)
  | .operand _ => []
  | .apply left op right => right.waiting ++ [(left.node, op)]

theorem applyAll_waiting (grouping : Grouping) :
    applyAll grouping.waiting grouping.last = grouping.node := by
  induction grouping with
  | operand node => rfl
  | apply left op right _ ih =>
    calc applyAll (right.waiting ++ [(left.node, op)]) right.last
        = joinOperands left.node op (applyAll right.waiting right.last) := List.foldl_append
      _ = joinOperands left.node op right.node := by rw [ih]

theorem applyWaiting_of_before {op : BinaryOp} {waiting : List (Node × BinaryOp)} {operand : Node}
    (before : ∀ entry ∈ waiting, appliesBefore entry.2 op = true) :
    applyWaiting op waiting operand = ([], applyAll waiting operand) := by
  induction waiting generalizing operand with
  | nil => rfl
  | cons entry waiting ih =>
    obtain ⟨now, later⟩ := List.forall_mem_cons.1 before
    rw [applyWaiting, if_pos now, ih later]
    rfl

theorem applyWaiting_concat {op above : BinaryOp} {left operand : Node}
    {waiting : List (Node × BinaryOp)} (after : appliesBefore above op = false) :
    applyWaiting op (waiting ++ [(left, above)]) operand
      = ((applyWaiting op waiting operand).1 ++ [(left, above)],
          (applyWaiting op waiting operand).2) := by
  induction waiting generalizing operand with
  | nil => simp [applyWaiting, after]
  | cons entry waiting ih =>
    rw [List.cons_append, applyWaiting, applyWaiting]
    split
    · exact ih
    · rfl

theorem Ordered.before_of_mem_waiting {grouping : Grouping} (ordered : grouping.Ordered)
    {next : BinaryOp} (before : ∀ top ∈ grouping.top?, appliesBefore top next = true) :
    ∀ entry ∈ grouping.waiting, appliesBefore entry.2 next = true := by
  induction grouping with
  | operand node => simp [waiting]
  | apply left op right _ ih =>
    obtain ⟨_, rightOrdered, _, rightUnder⟩ := ordered_apply.1 ordered
    intro entry member
    rcases List.mem_append.1 member with inside | outer
    · refine ih rightOrdered (fun top under => ?_) entry inside
      exact appliesBefore_trans (rightUnder top under) (before op rfl)
    · rw [List.mem_singleton.1 outer]
      exact before op rfl

/-- One step of folding adds one operand at the right end. -/
theorem waiting_push {grouping : Grouping} (ordered : grouping.Ordered) (op : BinaryOp)
    (next : Node) :
    (grouping.push op next).waiting =
      ((applyWaiting op grouping.waiting grouping.last).2, op)
        :: (applyWaiting op grouping.waiting grouping.last).1 := by
  induction grouping with
  | operand node => rfl
  | apply left above right _ ih =>
    rcases before_or_after (.apply left above right) op with before | ⟨_, _, _, same, after⟩
    · rw [push_of_before before, applyWaiting_of_before (ordered.before_of_mem_waiting before),
        applyAll_waiting]
      rfl
    · cases same
      rw [push_of_after after, waiting, ih ordered.2.1, waiting, applyWaiting_concat after]
      rfl

theorem foldFrom_waiting {grouping : Grouping} (ordered : grouping.Ordered)
    (rest : List (BinaryOp × Node)) :
    foldFrom grouping.waiting grouping.last rest = (grouping.pushAll rest).node := by
  induction rest generalizing grouping with
  | nil => exact applyAll_waiting grouping
  | cons entry rest ih =>
    have pushed : (grouping.push entry.1 entry.2).Ordered := ordered.push
    have folded := ih pushed
    rw [waiting_push ordered, last_push] at folded
    exact folded

/-- Folding gives the node of some grouping of the operands, so what joining two nodes keeps,
folding keeps. -/
theorem exists_node_eq_foldOperators (first : Node) (rest : List (BinaryOp × Node)) :
    ∃ grouping : Grouping, grouping.operands = first :: rest.map Prod.snd
      ∧ grouping.node = foldOperators first rest := by
  have start : (operand first).Ordered := trivial
  obtain ⟨⟨head, tail⟩, _⟩ := pushAll_spec _ start rest
  refine ⟨(operand first).pushAll rest, ?_, (foldFrom_waiting start rest).symm⟩
  rw [operands, head, tail]
  rfl

end Grouping

theorem map_snd_knownOperators {parts : List (String × Node)} {entries : List (BinaryOp × Node)}
    (known : parts.mapM knownOperator = .ok entries) :
    entries.map Prod.snd = parts.map Prod.snd := by
  refine Match.map_eq_of_mapM_eq_ok (fun part entry known => ?_) known
  obtain ⟨op, _, rfl⟩ := Match.eq_ok_of_map_eq_ok known
  rfl

open Grouping in
/-- **Operands are grouped by precedence, and in one way only.** Operands with operators between
them have exactly one ordered grouping, and folding gives the tree of that grouping. -/
theorem foldOperators_grouping (first : Node) (rest : List (BinaryOp × Node)) :
    ∃ grouping : Grouping, grouping.Groups first rest ∧ grouping.Ordered
      ∧ (∀ tree, grouping.Builds tree ↔ tree = foldOperators first rest)
      ∧ ∀ other : Grouping, other.Groups first rest → other.Ordered → other = grouping := by
  have start : (operand first).Ordered := trivial
  obtain ⟨groups, ordered⟩ := pushAll_spec _ start rest
  refine ⟨(operand first).pushAll rest, groups, ordered, fun tree => ?_, ?_⟩
  · rw [builds_iff, ← foldFrom_waiting start]
    rfl
  · rintro other ⟨rfl, rfl⟩ otherOrdered
    exact otherOrdered.eq_pushAll.symm

end TemplateLint.Grammar
