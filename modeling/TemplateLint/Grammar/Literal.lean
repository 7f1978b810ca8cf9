import TemplateLint.Grammar.Lexeme
import TemplateLint.Grammar.LiteralText

/-!
# Literals and templates
-/

namespace TemplateLint.Grammar

open TemplateLint.Syntax

def literalOf (class_ : Terminal) (value? : List Char → Option LiteralValue) : Parser Node :=
  node (.check (lexeme class_) fun raw =>
    (readable (value? raw.toList)).map fun value => .literal value raw)

def stringLiteral : Parser Node := literalOf .string stringValue?

def numberLiteral : Parser Node := literalOf .number numberValue?

def regexLiteral : Parser Node := literalOf .regex (some ∘ verbatimValue)

def literal : Parser Node :=
  node ((fun raw => .literal .null raw) <$> lexeme (.word ["null"]))
    <|> node ((fun raw => .literal (.bool (raw == "true")) raw) <$>
      lexeme (.word ["true", "false"]))
    <|> numberLiteral
    <|> stringLiteral

def templatePart : Parser (Sum String Node) :=
  Sum.inl <$> .terminal .templateText
    <|> Sum.inr <$> (symbol "$\x7b" *> expression <* mark "\x7d")

def templateLiteral : Parser Node :=
  node ((fun parts =>
      .templateLiteral (parts.filterMap Sum.getLeft?) (parts.filterMap Sum.getRight?)) <$>
    (mark (String.ofList [backquote]) *> .many templatePart <* symbol (String.ofList [backquote])))

end TemplateLint.Grammar
