import TemplateLint.Syntax.Node

/-!
# Folding operators by precedence

An expression is read as a flat list of operands and operators. `foldOperators` builds its tree:
a tighter operator is applied first, equal ones from left to right, and `**` alone from right to
left. It keeps the operands that still wait for their right side, the innermost first.
-/

namespace TemplateLint.Grammar

open TemplateLint.Syntax

def joinOperands (left : Node) (op : BinaryOp) (right : Node) : Node :=
  ⟨⟨left.start, right.stop⟩, .binary left op right⟩

/-- Whether a waiting operator goes before the next. -/
def appliesBefore (waiting next : BinaryOp) : Bool :=
  next.precedence < waiting.precedence
    || (waiting.precedence == next.precedence && next != .power)

/-- Applies the waiting operators that go before the next. -/
def applyWaiting (next : BinaryOp) : List (Node × BinaryOp) → Node → List (Node × BinaryOp) × Node
  | [], operand => ([], operand)
  | (left, op) :: waiting, operand =>
    if appliesBefore op next then applyWaiting next waiting (joinOperands left op operand)
    else ((left, op) :: waiting, operand)

def applyAll (waiting : List (Node × BinaryOp)) (operand : Node) : Node :=
  waiting.foldl (fun right (left, op) => joinOperands left op right) operand

def foldFrom (waiting : List (Node × BinaryOp)) (operand : Node) : List (BinaryOp × Node) → Node
  | [] => applyAll waiting operand
  | (op, next) :: rest =>
    let (waiting, operand) := applyWaiting op waiting operand
    foldFrom ((operand, op) :: waiting) next rest

/-- Groups operands by precedence. -/
def foldOperators (first : Node) (rest : List (BinaryOp × Node)) : Node :=
  foldFrom [] first rest

end TemplateLint.Grammar
