import TemplateLint.Number.Decimal
import TemplateLint.Syntax.Node
import TemplateLint.Text.Digit

/-!
# Values of literals

The body of a string is divided into plain characters and escapes (`pieces`). It has no value
(`stringValue?`) when an escape names a code point beyond U+10FFFF.

A number with a base prefix or without point and exponent is an integer, unless it is too large
for a double; every other number is a double (`numberValue?`). A number has no value when it
holds a digit without one, or is an integer of too many digits.
-/

namespace TemplateLint.Grammar

open TemplateLint.Number TemplateLint.Syntax TemplateLint.Text

/-! ## Strings -/

inductive Piece where
  | plain (c : Char)
  /-- An escape that gives a code point by number. -/
  | point (value : Nat)
  | continuation
  /-- A backslash before any other character. -/
  | escaped (c : Char)
  deriving DecidableEq, Repr

namespace Piece

def escapedValue (c : Char) : Nat :=
  match c with
  | 'n' => 10 | 't' => 9 | 'r' => 13 | 'b' => 8 | 'f' => 12 | 'v' => 11 | '0' => 0
  | _ => c.toNat

def points? : Piece → Option (List Nat)
  | .plain c => some [c.toNat]
  | .point value => if value ≤ 0x10ffff then some [value] else none
  | .continuation => some []
  | .escaped c => some [escapedValue c]

end Piece

def hexAt? (count : Nat) (text : List Char) : Option Nat :=
  let digits := text.take count
  if digits.length = count && digits.all isHexDigit then some (valueInBase 16 digits) else none

/-- The number given by hexadecimal digits between braces at the start of a text,
with its width. -/
def bracedHexAt? (text : List Char) : Option (Nat × Nat) :=
  match text with
  | '{' :: rest =>
    let digits := rest.takeWhile isHexDigit
    match digits, rest.drop digits.length with
    | _ :: _, '}' :: _ => some (valueInBase 16 digits, digits.length + 2)
    | _, _ => none
  | _ => none

/-- The escape after a backslash, with its width: the first form that fits of a
braced code point, four hexadecimal digits after `u`, two after `x`, a line break
of two characters, and any one character. -/
def escapeAt (c : Char) (rest : List Char) : Piece × Nat :=
  match c with
  | 'u' =>
    match bracedHexAt? rest with
    | some (value, width) => (.point value, 1 + width)
    | none =>
      match hexAt? 4 rest with
      | some value => (.point value, 5)
      | none => (.escaped c, 1)
  | 'x' =>
    match hexAt? 2 rest with
    | some value => (.point value, 3)
    | none => (.escaped c, 1)
  | '\r' =>
    match rest with
    | '\n' :: _ => (.continuation, 2)
    | _ => (.continuation, 1)
  | '\n' => (.continuation, 1)
  | _ => (.escaped c, 1)

def pieceAt (c : Char) (rest : List Char) : Piece × Nat :=
  match c, rest with
  | '\\', next :: rest =>
    let (piece, width) := escapeAt next rest
    (piece, 1 + width)
  | c, _ => (.plain c, 1)

def piecesUpTo : Nat → List Char → List Piece
  | 0, _ => []
  | _, [] => []
  | fuel + 1, c :: rest =>
    let (piece, width) := pieceAt c rest
    piece :: piecesUpTo fuel ((c :: rest).drop width)

def pieces (body : List Char) : List Piece := piecesUpTo body.length body

def stringPoints? (body : List Char) : Option (List Nat) :=
  ((pieces body).mapM Piece.points?).map List.flatten

def unquoted (raw : List Char) : List Char := (raw.drop 1).dropLast

def stringValue? (raw : List Char) : Option LiteralValue :=
  (stringPoints? (unquoted raw)).map .text

def verbatimValue (text : List Char) : LiteralValue := .text (text.map Char.toNat)

/-! ## Numbers -/

def maxIntegerDigits : Nat := 4300

/-- The value of a number literal without base prefix that has a point or an
exponent. -/
def decimalOf (raw : List Char) : Decimal :=
  let isMark := fun c => c == 'e' || c == 'E'
  let mantissa := raw.takeWhile (!isMark ·)
  let whole := mantissa.takeWhile (· != '.')
  let fraction := (mantissa.drop whole.length).drop 1
  let exponent : Int :=
    match raw.drop (mantissa.length + 1) with
    | '-' :: digits => -(decimalValue digits : Int)
    | '+' :: digits => decimalValue digits
    | digits => decimalValue digits
  ⟨decimalValue (whole ++ fraction), exponent - fraction.length⟩

def numberValue? (raw : List Char) : Option LiteralValue :=
  match raw with
  | '0' :: 'x' :: digits | '0' :: 'X' :: digits => some (.int (valueInBase 16 digits))
  | '0' :: 'b' :: digits | '0' :: 'B' :: digits => some (.int (valueInBase 2 digits))
  | '0' :: 'o' :: digits | '0' :: 'O' :: digits => some (.int (valueInBase 8 digits))
  | _ =>
    if raw.any isLaterDigit then none
    else if raw.all isDigit then
      let value := decimalValue raw
      if overflowBound ≤ value then some (.float infinity)
      else if maxIntegerDigits < raw.length then none
      else some (.int value)
    else some (.float (decimalOf raw).toFloat)

end TemplateLint.Grammar
