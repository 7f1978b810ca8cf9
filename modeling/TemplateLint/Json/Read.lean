import TemplateLint.Json.Value
import TemplateLint.Number.Decimal
import TemplateLint.Text.Digit

/-!
# Reading JSON

`Json.parseWith?` reads one value from a whole text, with or without a limit on the
digits of an integer; `Json.parse?` reads with the usual limit. Besides standard JSON
the words `NaN`, `Infinity` and `-Infinity` are numbers. A name that occurs twice in an
object takes the last value. A lone half of a surrogate pair reads as the replacement
character.
-/

namespace TemplateLint.Json

open TemplateLint.Number TemplateLint.Text

def isSeparator (c : Char) : Bool := c == ' ' || c == '\t' || c == '\n' || c == '\r'

def skipBlanks (text : List Char) : List Char := text.dropWhile isSeparator

def maxDigits : Nat := 4300

/-! ## Strings -/

def unit? : List Char → Option (Nat × List Char)
  | a :: b :: c :: d :: rest =>
    if [a, b, c, d].all isHexDigit then some (valueInBase 16 [a, b, c, d], rest) else none
  | _ => none

def letterEscape? (c : Char) : Option Char :=
  match c with
  | '"' => some '"'
  | '\\' => some '\\'
  | '/' => some '/'
  | 'b' => some (Char.ofNat 8)
  | 'f' => some (Char.ofNat 12)
  | 'n' => some '\n'
  | 'r' => some '\r'
  | 't' => some '\t'
  | _ => none

def unitChar (unit : Nat) : Char :=
  if 0xd800 ≤ unit && unit < 0xe000 then Char.ofNat 0xfffd else Char.ofNat unit

/-- The character that a unit begins, joined with the low half that may follow. -/
def joinUnits (unit : Nat) (rest : List Char) : Char × List Char :=
  if 0xd800 ≤ unit && unit < 0xdc00 then
    match rest with
    | '\\' :: 'u' :: after =>
      match unit? after with
      | some (low, after) =>
        if 0xdc00 ≤ low && low < 0xe000 then
          (Char.ofNat (0x10000 + (unit - 0xd800) * 0x400 + (low - 0xdc00)), after)
        else (unitChar unit, rest)
      | none => (unitChar unit, rest)
    | _ => (unitChar unit, rest)
  else (unitChar unit, rest)

def stringRest? : Nat → List Char → Option (List Char × List Char)
  | 0, _ => none
  | _, [] => none
  | _, '"' :: rest => some ([], rest)
  | fuel + 1, '\\' :: 'u' :: rest => do
    let (unit, rest) ← unit? rest
    let (c, rest) := joinUnits unit rest
    let (tail, rest) ← stringRest? fuel rest
    return (c :: tail, rest)
  | fuel + 1, '\\' :: letter :: rest => do
    let c ← letterEscape? letter
    let (tail, rest) ← stringRest? fuel rest
    return (c :: tail, rest)
  | fuel + 1, c :: rest =>
    if c.toNat < 0x20 || c == '\\' then none
    else do
      let (tail, rest) ← stringRest? fuel rest
      return (c :: tail, rest)

def string? (input : List Char) : Option (String × List Char) :=
  (stringRest? (input.length + 1) input).map fun (chars, rest) => (String.ofList chars, rest)

/-! ## Numbers -/

def digits (input : List Char) : List Char × List Char :=
  (input.takeWhile Char.isDigit, input.dropWhile Char.isDigit)

def wholeDigits? : List Char → Option (List Char × List Char)
  | '0' :: rest => some (['0'], rest)
  | input =>
    match digits input with
    | ([], _) => none
    | found => some found

def fractionDigits (input : List Char) : List Char × List Char :=
  match input with
  | '.' :: rest =>
    match digits rest with
    | ([], _) => ([], input)
    | found => found
  | _ => ([], input)

def exponent? (input : List Char) : Option (Int × List Char) :=
  match input with
  | mark :: rest =>
    if mark == 'e' || mark == 'E' then
      let (negative, rest) :=
        match rest with
        | '-' :: rest => (true, rest)
        | '+' :: rest => (false, rest)
        | rest => (false, rest)
      match digits rest with
      | ([], _) => none
      | (found, rest) =>
        let size : Int := decimalValue found
        some (if negative then -size else size, rest)
    else none
  | [] => none

def number? (limit? : Option Nat) (input : List Char) : Option (Json × List Char) :=
  let (negative, input) :=
    match input with
    | '-' :: rest => (true, rest)
    | input => (false, input)
  match wholeDigits? input with
  | none => none
  | some (whole, rest) =>
    let (fraction, rest) := fractionDigits rest
    match exponent? rest with
    | some (exponent, rest) =>
      let size := (⟨decimalValue (whole ++ fraction), exponent - fraction.length⟩ : Decimal).toFloat
      some (.float (if negative then -size else size), rest)
    | none =>
      if fraction.isEmpty then
        let size : Int := decimalValue whole
        if limit?.all (whole.length ≤ ·) then some (.int (if negative then -size else size), rest)
        else none
      else
        let size := (⟨decimalValue (whole ++ fraction), -(fraction.length : Int)⟩ : Decimal).toFloat
        some (.float (if negative then -size else size), rest)

/-! ## Values -/

def words : List (String × Json) :=
  [("null", .null), ("true", .bool true), ("false", .bool false), ("NaN", .float (0.0 / 0.0)),
    ("Infinity", .float infinity), ("-Infinity", .float (-infinity))]

def atom? (limit? : Option Nat) (input : List Char) : Option (Json × List Char) :=
  match words.find? fun (word, _) => word.toList.isPrefixOf input with
  | some (word, value) => some (value, input.drop word.length)
  | none => number? limit? input

mutual

def value? (limit? : Option Nat) : Nat → List Char → Option (Json × List Char)
  | 0, _ => none
  | fuel + 1, input =>
    match input with
    | '"' :: rest => (string? rest).map fun (value, rest) => (.text value, rest)
    | '[' :: rest =>
      match skipBlanks rest with
      | ']' :: rest => some (.list [], rest)
      | rest => (items? limit? fuel rest).map fun (items, rest) => (.list items, rest)
    | '{' :: rest =>
      match skipBlanks rest with
      | '}' :: rest => some (.object [], rest)
      | rest => (members? limit? fuel [] rest).map fun (members, rest) => (.object members, rest)
    | input => atom? limit? input

def items? (limit? : Option Nat) : Nat → List Char → Option (List Json × List Char)
  | 0, _ => none
  | fuel + 1, input => do
    let (item, rest) ← value? limit? fuel (skipBlanks input)
    match skipBlanks rest with
    | ']' :: rest => return ([item], rest)
    | ',' :: rest =>
      let (items, rest) ← items? limit? fuel rest
      return (item :: items, rest)
    | _ => none

/-- The members of an object up to its end, after those already read. -/
def members? (limit? : Option Nat) :
    Nat → List (String × Json) → List Char → Option (List (String × Json) × List Char)
  | 0, _, _ => none
  | fuel + 1, before, input =>
    match skipBlanks input with
    | '"' :: rest => do
      let (name, rest) ← string? rest
      match skipBlanks rest with
      | ':' :: rest =>
        let (value, rest) ← value? limit? fuel (skipBlanks rest)
        let members := Entries.set name value before
        match skipBlanks rest with
        | '}' :: rest => return (members, rest)
        | ',' :: rest => members? limit? fuel members rest
        | _ => none
      | _ => none
    | _ => none

end

/-- The value that a whole text writes, where an integer has no more digits than the
limit. -/
def parseWith? (limit? : Option Nat) (input : String) : Option Json :=
  let chars := input.toList
  match value? limit? (2 * chars.length + 2) (skipBlanks chars) with
  | some (value, rest) => if (skipBlanks rest).isEmpty then some value else none
  | none => none

/-- The value of a JSON text. -/
def parse? (input : String) : Option Json := parseWith? (some maxDigits) input

end TemplateLint.Json
