import TemplateLint.Text.LineIndex
import TemplateLint.Text.Quoted

/-!
# Syntax errors

The ways in which a source text is rejected, each with the offset it is reported
at. `SyntaxError.message` gives the wording.
-/

namespace TemplateLint.Syntax

open TemplateLint.Text

inductive SyntaxError where
  /-- No statement starts here. -/
  | unexpectedInput (offset : Nat) (excerpt : String)
  /-- The text is no sequence of statements, not even an empty one. -/
  | unexpectedToken (offset : Nat) (excerpt : String)
  /-- Decorators before an export that exports no class. -/
  | misplacedDecorators (offset : Nat)
  | metaProperty (offset : Nat) (name : String)
  | closingTag (offset : Nat) (expected found : String)
  /-- A literal or operator without a meaning. -/
  | unreadable
  deriving DecidableEq, Repr

namespace SyntaxError

/-- Where the error is reported. -/
def offset : SyntaxError → Nat
  | .unexpectedInput offset _ => offset
  | .unexpectedToken offset _ => offset
  | .misplacedDecorators offset => offset
  | .metaProperty offset _ => offset
  | .closingTag offset _ _ => offset
  | .unreadable => 0

/-- The wording of the error. -/
def message : SyntaxError → String
  | .unexpectedInput _ excerpt => "Parsing error: unexpected input " ++ quote excerpt
  | .unexpectedToken _ excerpt =>
    if excerpt.isEmpty then "Parsing error: unexpected end of input"
    else "Parsing error: unexpected token " ++ quote excerpt
  | .misplacedDecorators _ => "Leading decorators must be attached to a class declaration"
  | .metaProperty _ name =>
    "The only valid meta property for new is new.target, not new." ++ name
  | .closingTag _ expected found =>
    "Expected corresponding JSX closing tag for <" ++ expected ++ ">, found </" ++ found ++ ">"
  | .unreadable => "Parsing error: input is nested too deeply"

def position (source : List Char) (error : SyntaxError) : Position :=
  (LineIndex.ofText source).position error.offset

/-- The beginning of the rest of a text, at most twenty characters of one line. -/
def excerpt (rest : List Char) : String :=
  String.ofList ((rest.take 20).takeWhile (· != '\n'))

end SyntaxError

end TemplateLint.Syntax
