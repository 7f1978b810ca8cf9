/-!
# Operators

The operators that stand between two operands, with their precedence, and the
operators of assignments. Unary and update operators are kept as the text they
are written with and need no type of their own.
-/

namespace TemplateLint.Syntax

inductive BinaryOp where
  | nullish | or | and
  | bitOr | bitXor | bitAnd
  | equal | notEqual | same | notSame
  | less | greater | lessEqual | greaterEqual | instanceOf | inside
  | shiftLeft | shiftRight | shiftRightZero
  | add | subtract
  | multiply | divide | remainder
  | power
  deriving DecidableEq, Repr

namespace BinaryOp

def all : List BinaryOp :=
  [.nullish, .or, .and, .bitOr, .bitXor, .bitAnd, .equal, .notEqual, .same, .notSame, .less,
    .greater, .lessEqual, .greaterEqual, .instanceOf, .inside, .shiftLeft, .shiftRight,
    .shiftRightZero, .add, .subtract, .multiply, .divide, .remainder, .power]

def text : BinaryOp → String
  | .nullish => "??" | .or => "||" | .and => "&&"
  | .bitOr => "|" | .bitXor => "^" | .bitAnd => "&"
  | .equal => "==" | .notEqual => "!=" | .same => "===" | .notSame => "!=="
  | .less => "<" | .greater => ">" | .lessEqual => "<=" | .greaterEqual => ">="
  | .instanceOf => "instanceof" | .inside => "in"
  | .shiftLeft => "<<" | .shiftRight => ">>" | .shiftRightZero => ">>>"
  | .add => "+" | .subtract => "-"
  | .multiply => "*" | .divide => "/" | .remainder => "%"
  | .power => "**"

def ofText? (text : String) : Option BinaryOp :=
  all.find? fun op => op.text == text

/-- How tightly an operator binds; a higher number binds tighter. -/
def precedence : BinaryOp → Nat
  | .nullish | .or => 1
  | .and => 2
  | .bitOr => 3
  | .bitXor => 4
  | .bitAnd => 5
  | .equal | .notEqual | .same | .notSame => 6
  | .less | .greater | .lessEqual | .greaterEqual | .instanceOf | .inside => 7
  | .shiftLeft | .shiftRight | .shiftRightZero => 8
  | .add | .subtract => 9
  | .multiply | .divide | .remainder => 10
  | .power => 11

/-- The operators that may skip their right operand. -/
def isLogical : BinaryOp → Bool
  | .nullish | .or | .and => true
  | _ => false

end BinaryOp

inductive AssignOp where
  | plain
  | compound (op : BinaryOp)
  deriving DecidableEq, Repr

namespace AssignOp

def text : AssignOp → String
  | .plain => "="
  | .compound op => op.text ++ "="

/-- An assignment that may skip its right side. -/
def isShortCircuit : AssignOp → Bool
  | .plain => false
  | .compound op => op.isLogical

end AssignOp

end TemplateLint.Syntax
