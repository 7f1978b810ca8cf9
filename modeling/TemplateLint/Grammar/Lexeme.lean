import TemplateLint.Grammar.Peg
import TemplateLint.Syntax.Error
import TemplateLint.Syntax.Node

/-!
# Syntactic categories and lexemes

The categories that the grammar refers to by name are those through which it is
recursive; everything else is an expression written out where it is used. Every
lexeme takes the trivia after it, so a rule starts at its first lexeme.
-/

namespace TemplateLint.Grammar

open TemplateLint.Syntax TemplateLint.Text

inductive Category where
  | bindingTarget
  | jsxElement
  | jsxFragment
  | construction
  | primary
  | callExpression
  | unary
  | assignment
  | expression
  | statement
  deriving DecidableEq, Repr

abbrev Parser := Peg Category Node SyntaxError

def bindingTarget : Parser Node := .rule .bindingTarget
def jsxElement : Parser Node := .rule .jsxElement
def jsxFragment : Parser Node := .rule .jsxFragment
def construction : Parser Node := .rule .construction
def primary : Parser Node := .rule .primary
def callExpression : Parser Node := .rule .callExpression
def unary : Parser Node := .rule .unary
def assignment : Parser Node := .rule .assignment
def expression : Parser Node := .rule .expression
def statement : Parser Node := .rule .statement

def skip {α : Type} (part : Parser α) : Parser Unit := (fun _ => ()) <$> part

def trivia : Parser Unit := skip (.terminal .trivia)

def lexeme (class_ : Terminal) : Parser String := .terminal class_ <* trivia

/-- The given characters, without the trivia after them. -/
def mark (text : String) : Parser Unit := skip (.terminal (.symbol text))

def symbol (text : String) : Parser Unit := mark text <* trivia

def keyword (text : String) : Parser Unit := skip (lexeme (.word [text]))

/-- A part and the trivia in it, as written, without blanks at the end. -/
def trimmed {α : Type} (part : Parser α) : Parser String :=
  (fun text => String.ofList (trim text)) <$> .verbatim part

/-- A node that covers what its form is read from, up to the end of the content. -/
def node (form : Parser Form) : Parser Node :=
  (fun (extent, form) => ⟨⟨extent.start, extent.content⟩, form⟩) <$> .located form

def separated {α : Type} (part : Parser α) : Parser (List α) :=
  List.cons <$> part <*> .many (symbol "," *> part)

def commaList {α : Type} (part : Parser α) : Parser (List α) :=
  (·.getD []) <$> .optional (separated part <* .optional (symbol ","))

def braced {α : Type} (part : Parser α) : Parser α := symbol "\x7b" *> part <* symbol "\x7d"

def parenthesized {α : Type} (part : Parser α) : Parser α := symbol "(" *> part <* symbol ")"

def bracketed {α : Type} (part : Parser α) : Parser α := symbol "[" *> part <* symbol "]"

def semicolon : Parser Unit := skip (.optional (symbol ";"))

def nameOf (class_ : Terminal) : Parser Ident :=
  (fun (extent, name) => ⟨⟨extent.start, extent.stop⟩, name⟩) <$> .located (.terminal class_)

def identifier : Parser Ident := nameOf .identifier <* trivia

def anyName : Parser Ident := nameOf .name <* trivia

/-! ## Literals -/

/-- Keeps a value, or refuses the literal that has none. -/
def readable {α : Type} : Option α → Except SyntaxError α
  | some value => .ok value
  | none => .error .unreadable

end TemplateLint.Grammar
