import TemplateLint.Text.Blank
import TemplateLint.Text.Digit

/-!
# Terminals of the grammar

`Terminal.scan` says how many characters of the remaining text form a lexeme of a class. It takes
the longest lexeme that the class admits, except that a number and an operator give up a longer
form when what follows it is not allowed there and a shorter form is. Blanks and comments form a
class of their own, `trivia`, which always matches, possibly with no characters.
-/

namespace TemplateLint.Grammar

open TemplateLint.Text

inductive Terminal where
  | symbol (text : String)
  /-- One of the given words, not followed by a character of a name. -/
  | word (choices : List String)
  /-- A word together with the spaces and tabs after it. -/
  | command (text : String)
  /-- One of the given words, before blanks and the start of a member: a name or
  one of the given marks. -/
  | modifier (choices : List String) (marks : List Char)
  | asyncFunction
  | identifier
  | name
  | number
  | string
  | regex
  | templateText
  | tagPart
  | tagText
  | tagString
  | assign
  | equals
  | question
  | infixMark
  | unaryMark
  | updateMark
  | oneOf (chars : List Char)
  | trivia
  deriving DecidableEq, Repr

/-! ## Names -/

def isNameStart (c : Char) : Bool :=
  ('a' ≤ c && c ≤ 'z') || ('A' ≤ c && c ≤ 'Z') || c == '_' || c == '$'

def isNamePart (c : Char) : Bool :=
  isNameStart c || ('0' ≤ c && c ≤ '9')

def reservedWords : List String :=
  ["break", "case", "catch", "class", "const", "continue", "debugger", "default", "delete", "do",
    "else", "export", "extends", "false", "finally", "for", "function", "if", "import", "in",
    "instanceof", "new", "null", "return", "super", "switch", "this", "throw", "true", "try",
    "typeof", "var", "void", "while", "with", "yield"]

def atBoundary : List Char → Bool
  | [] => true
  | c :: _ => !isNamePart c

def nameAt : List Char → List Char
  | [] => []
  | c :: rest => if isNameStart c then c :: rest.takeWhile isNamePart else []

def nonzero (width : Nat) : Option Nat := if width = 0 then none else some width

def wordWidth? (choices : List String) (text : List Char) : Option Nat :=
  (choices.find? fun word =>
    word.toList.isPrefixOf text && atBoundary (text.drop word.length)).map String.length

def afterBlanks (next : List Char → Bool) (text : List Char) : Bool :=
  match text with
  | [] => false
  | c :: rest => isWhiteSpace c && next (rest.dropWhile isWhiteSpace)

def modifierWidth? (choices : List String) (marks : List Char) (text : List Char) : Option Nat :=
  (choices.find? fun word =>
    word.toList.isPrefixOf text && afterBlanks (fun rest =>
      match rest with
      | [] => false
      | c :: _ => isNameStart c || marks.contains c) (text.drop word.length)).map String.length

/-! ## Numbers -/

def downTo (low high : Nat) : List Nat :=
  ((List.range (high + 1)).drop low).reverse

def digitCount (text : List Char) : Nat := (text.takeWhile isAnyDigit).length

/-- The end, if no character of a name follows it. -/
def boundedEnd? (text : List Char) (width : Nat) : Option Nat :=
  if atBoundary (text.drop width) then some width else none

def radixEnd? (marks : List Char) (isDigitOfBase : Char → Bool) : List Char → Option Nat
  | '0' :: mark :: rest =>
    let digits := (rest.takeWhile isDigitOfBase).length
    if marks.contains mark && digits != 0 && atBoundary (rest.drop digits) then some (digits + 2)
    else none
  | _ => none

/-- The end of a decimal number whose mantissa ends at `width`: with an exponent if
there is one, else without. -/
def exponentEnd? (text : List Char) (width : Nat) : Option Nat :=
  let withExponent : Option Nat :=
    match text.drop width with
    | mark :: rest =>
      if mark == 'e' || mark == 'E' then
        let sign := match rest with
          | c :: _ => if c == '-' || c == '+' then 1 else 0
          | [] => 0
        (downTo 1 (digitCount (rest.drop sign))).findSome? fun digits =>
          boundedEnd? text (width + 1 + sign + digits)
      else none
    | [] => none
  withExponent <|> boundedEnd? text width

def wholeEnd? (text : List Char) : Option Nat :=
  (downTo 1 (digitCount text)).findSome? fun whole =>
    let rest := text.drop whole
    let withPoint : Option Nat :=
      match rest with
      | '.' :: fraction =>
        (downTo 0 (digitCount fraction)).findSome? fun digits =>
          exponentEnd? text (whole + 1 + digits)
      | _ => none
    withPoint <|> (downTo 0 (digitCount rest)).findSome? fun digits =>
      exponentEnd? text (whole + digits)

def fractionEnd? (text : List Char) : Option Nat :=
  match text with
  | '.' :: fraction =>
    (downTo 1 (digitCount fraction)).findSome? fun digits => exponentEnd? text (1 + digits)
  | _ => none

def numberWidth? (text : List Char) : Option Nat :=
  radixEnd? ['x', 'X'] isHexDigit text
    <|> radixEnd? ['b', 'B'] (fun c => c == '0' || c == '1') text
    <|> radixEnd? ['o', 'O'] (fun c => '0' ≤ c && c ≤ '7') text
    <|> wholeEnd? text
    <|> fractionEnd? text

/-! ## Quoted and delimited texts -/

/-- The width of the rest of a string, up to and including the closing mark. A
backslash takes the next character with it, and a line feed may only follow a
backslash. -/
def stringRest? (mark : Char) : List Char → Option Nat
  | [] => none
  | '\\' :: _ :: rest => (stringRest? mark rest).map (· + 2)
  | c :: rest =>
    if c == mark then some 1
    else if c == '\n' || c == '\\' then none
    else (stringRest? mark rest).map (· + 1)

def stringWidth? : List Char → Option Nat
  | c :: rest => if c == '"' || c == '\'' then (stringRest? c rest).map (· + 1) else none
  | [] => none

/-- The width of the rest of a regular expression, up to and including the closing
slash; a slash inside brackets does not close it. -/
def regexRest? : Bool → List Char → Option Nat
  | _, [] => none
  | bracketed, '\\' :: c :: rest =>
    if c == '\n' then none else (regexRest? bracketed rest).map (· + 2)
  | true, c :: rest =>
    if c == '\n' || c == '\\' then none
    else (regexRest? (c != ']') rest).map (· + 1)
  | false, c :: rest =>
    if c == '/' then some 1
    else if c == '\n' || c == '\\' then none
    else (regexRest? (c == '[') rest).map (· + 1)

def regexWidth? : List Char → Option Nat
  | '/' :: c :: rest =>
    if c == '/' || c == '*' then none
    else (regexRest? false (c :: rest)).map fun width =>
      1 + width + (((c :: rest).drop width).takeWhile Char.isAlpha).length
  | _ => none

def backquote : Char := Char.ofNat 0x60

def templateTextWidth : List Char → Nat
  | [] => 0
  | '\\' :: _ :: rest => templateTextWidth rest + 2
  | '$' :: '{' :: _ => 0
  | c :: rest => if c == backquote || c == '\\' then 0 else templateTextWidth rest + 1

def tagStringWidth? : List Char → Option Nat
  | c :: rest =>
    if c == '"' || c == '\'' then
      let inner := (rest.takeWhile (· != c)).length
      if inner < rest.length then some (inner + 2) else none
    else none
  | [] => none

/-! ## Operators -/

def assignMarks : List String :=
  [">>>", "<<", ">>", "**", "||", "&&", "??", "-", "+", "*", "/", "%", "&", "|", "^", ""]

def notBefore (chars : List Char) : List Char → Bool
  | [] => true
  | c :: _ => !chars.contains c

def assignWidth? (text : List Char) : Option Nat :=
  (assignMarks.find? fun mark =>
    let op := mark.toList ++ ['=']
    op.isPrefixOf text && notBefore ['=', '>'] (text.drop op.length)).map (·.length + 1)

def infixMarks : List String :=
  ["??", "||", "&&", "===", "!==", "==", "!=", "<=", ">=", ">>>", "<<", ">>", "**", "|", "^", "&",
    "%", "*", "+", "-", "<", ">", "/"]

def infixWidth? (text : List Char) : Option Nat :=
  (infixMarks.find? fun mark =>
    mark.toList.isPrefixOf text
      && notBefore (if mark == "/" then ['/', '*', '='] else ['=']) (text.drop mark.length)).map
    String.length

def unaryWidth? : List Char → Option Nat
  | c :: rest =>
    if c == '!' || c == '~' || ((c == '+' || c == '-') && notBefore [c] rest) then some 1 else none
  | [] => none

/-- A single character, unless one of the given ones follows it. -/
def markWidth? (mark : Char) (blocked : List Char) : List Char → Option Nat
  | c :: rest => if c == mark && notBefore blocked rest then some 1 else none
  | [] => none

/-! ## Blanks and comments -/

/-- Whether a run of trivia is between comments or inside one. -/
inductive TriviaMode where
  | plain
  | lineComment
  | blockComment
  deriving DecidableEq, Repr

/-- The text holds the end of a block comment. -/
def closesComment : List Char → Bool
  | '*' :: '/' :: _ => true
  | _ :: rest => closesComment rest
  | [] => false

/-- The width of the blanks and comments at the start of a text. A block comment
that is never closed is not trivia. -/
def triviaWidth : TriviaMode → List Char → Nat
  | _, [] => 0
  | .plain, '/' :: '/' :: rest => triviaWidth .lineComment rest + 2
  | .plain, '/' :: '*' :: rest =>
    if closesComment rest then triviaWidth .blockComment rest + 2 else 0
  | .plain, c :: rest => if isWhiteSpace c then triviaWidth .plain rest + 1 else 0
  | .lineComment, c :: rest =>
    triviaWidth (if c == '\n' then .plain else .lineComment) rest + 1
  | .blockComment, '*' :: '/' :: rest => triviaWidth .plain rest + 2
  | .blockComment, _ :: rest => triviaWidth .blockComment rest + 1

/-! ## Scanning -/

/-- The width of the lexeme of the given class at the start of a text. -/
def Terminal.scan : Terminal → List Char → Option Nat
  | .symbol text, rest => if text.toList.isPrefixOf rest then some text.length else none
  | .word choices, text => wordWidth? choices text
  | .command keyword, text => (wordWidth? [keyword] text).map fun width =>
      width + ((text.drop width).takeWhile fun c => c == ' ' || c == '\t').length
  | .modifier choices marks, text => modifierWidth? choices marks text
  | .asyncFunction, text =>
    if "async".toList.isPrefixOf text
        && afterBlanks (fun rest => (wordWidth? ["function"] rest).isSome) (text.drop 5)
    then some 5 else none
  | .identifier, text =>
    let name := nameAt text
    if reservedWords.contains (String.ofList name) then none else nonzero name.length
  | .name, text => nonzero (nameAt text).length
  | .number, text => numberWidth? text
  | .string, text => stringWidth? text
  | .regex, text => regexWidth? text
  | .templateText, text => nonzero (templateTextWidth text)
  | .tagPart, text =>
    match text with
    | [] => none
    | c :: rest =>
      if isNameStart c then some (1 + (rest.takeWhile fun c => isNamePart c || c == '-').length)
      else none
  | .tagText, text => nonzero (text.takeWhile (notBefore ['<', '>', '{', '}'] [·])).length
  | .tagString, text => tagStringWidth? text
  | .assign, text => assignWidth? text
  | .equals, text => markWidth? '=' ['=', '>'] text
  | .question, text => markWidth? '?' ['?', '.'] text
  | .infixMark, text => infixWidth? text
  | .unaryMark, text => unaryWidth? text
  | .updateMark, text =>
    if "++".toList.isPrefixOf text || "--".toList.isPrefixOf text then some 2 else none
  | .oneOf chars, text =>
    match text with
    | [] => none
    | c :: _ => if chars.contains c then some 1 else none
  | .trivia, text => some (triviaWidth .plain text)

end TemplateLint.Grammar
