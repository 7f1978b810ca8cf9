import TemplateLint.Grammar.Literal

/-!
# Binding patterns, parameters and property keys
-/

namespace TemplateLint.Grammar

open TemplateLint.Syntax

def initializer : Parser Node := skip (lexeme .equals) *> assignment

def propertyKey : Parser (Node × Bool) :=
  (·, true) <$> bracketed assignment
    <|> (fun id => (id.node, false)) <$> anyName
    <|> (·, false) <$> stringLiteral
    <|> (·, false) <$> numberLiteral

def restTarget : Parser Node := node (.restElement <$> (symbol "..." *> bindingTarget))

def bindingElement : Parser Node :=
  (fun (extent, target, default?) =>
      match default? with
      | none => target
      | some value => ⟨⟨extent.start, extent.content⟩, .assignmentPattern target value⟩) <$>
    .located (Prod.mk <$> bindingTarget <*> .optional initializer)

def sparseList (element : Parser Node) : Parser (List (Option Node)) :=
  (fun slots =>
      match slots.getLast? with
      | some none => slots.dropLast
      | _ => slots) <$>
    bracketed (separated (.optional element))

def arrayPattern : Parser Node :=
  node (.arrayPattern <$> sparseList (restTarget <|> bindingElement))

/-- A property that is written by its name alone, perhaps with a default. -/
def shorthandProperty : Parser Node :=
  node ((fun (id : Ident) default? =>
      let value : Node :=
        match default? with
        | none => id.node
        | some value => ⟨⟨id.span.start, value.stop⟩, .assignmentPattern id.node value⟩
      .property id.node value .shorthand false) <$>
    identifier <*> .optional initializer)

def keyedTarget : Parser Node :=
  node ((fun key value => .property key.1 value .keyed key.2) <$>
    (propertyKey <* symbol ":") <*> bindingElement)

def objectPattern : Parser Node :=
  node (.objectPattern <$> braced (commaList (restTarget <|> keyedTarget <|> shorthandProperty)))

def bindingTargetBody : Parser Node :=
  Ident.node <$> identifier <|> arrayPattern <|> objectPattern

def params : Parser (List Node) := parenthesized (commaList (restTarget <|> bindingElement))

def block : Parser Node := node (.block <$> braced (.many statement))

def generatorStar : Parser Bool := Option.isSome <$> .optional (symbol "*")

def methodFunction (isAsync generator : Bool) (params : Extent × List Node) (body : Node) : Node :=
  ⟨⟨params.1.start, body.stop⟩, .function .expression none params.2 body isAsync generator⟩

def memberMarks : List Char := ['[', '"', '\'', '*']

/-- The word that makes a member a getter, a setter or asynchronous. -/
def accessor : Parser (Option String) :=
  .optional (lexeme (.modifier ["get", "set", "async"] memberMarks))

def functionOf (role : Role) (name : Parser (Option Ident)) : Parser Node :=
  node ((fun isAsync generator id params body =>
      .function role id params body isAsync generator) <$>
    (Option.isSome <$> .optional (lexeme .asyncFunction)) <*>
    (keyword "function" *> generatorStar) <*> name <*> params <*> block)

end TemplateLint.Grammar
