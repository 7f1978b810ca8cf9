import TemplateLint.Grammar.Class
import TemplateLint.Grammar.Folding
import TemplateLint.Grammar.Markup
import TemplateLint.Grammar.Target

/-!
# Expressions
-/

namespace TemplateLint.Grammar

open TemplateLint.Syntax

/-! ## Primary expressions and calls -/

def arrayLiteral : Parser Node := node (.arrayExpression <$> sparseList spreadOrAssignment)

def objectMethodStyle : Option String → PropertyStyle
  | some "get" => .getter
  | some "set" => .setter
  | _ => .method

def objectMethod : Parser Node :=
  node ((fun accessor generator key params body =>
      .property key.1 (methodFunction (accessor == some "async") generator params body)
        (objectMethodStyle accessor) key.2) <$>
    accessor <*> generatorStar <*> propertyKey <*> .located params <*> block)

def keyedProperty : Parser Node :=
  node ((fun key value => .property key.1 value .keyed key.2) <$>
    (propertyKey <* symbol ":") <*> assignment)

def objectLiteral : Parser Node :=
  node (.objectExpression <$>
    braced (commaList (node (.spreadElement <$> (symbol "..." *> assignment))
      <|> objectMethod <|> keyedProperty <|> shorthandProperty)))

def primaryBody : Parser Node :=
  node ((fun _ => .this) <$> keyword "this")
    <|> literal
    <|> templateLiteral
    <|> regexLiteral
    <|> markup
    <|> functionOf .expression (.optional identifier)
    <|> classOf .expression (.optional identifier)
    <|> arrayLiteral
    <|> objectLiteral
    <|> parenthesized expression
    <|> Ident.node <$> identifier

def newTarget : Parser Node :=
  node (.check (.located (keyword "new" *> symbol "." *> anyName)) fun (extent, property) =>
    if property.name == "target" then .ok .newTarget
    else .error (.metaProperty extent.start property.name))

/-- What stands after `new` and before the arguments. -/
def constructed : Parser Node :=
  (fun head tails => tails.foldl applyTail head) <$>
    (construction <|> primary) <*> .many (.located (dotMember <|> computedMember))

def constructionBody : Parser Node :=
  newTarget
    <|> node ((fun callee arguments => .construct callee (arguments.getD [])) <$>
      (keyword "new" *> constructed) <*> .optional arguments)

def callExpressionBody : Parser Node :=
  (fun head tails => tails.foldl applyTail head) <$>
    (node ((fun _ => .super) <$> keyword "super") <|> construction <|> primary)
      <*> .many (.located callTail)

/-! ## Operators -/

def updateOperator : Parser String := trimmed (lexeme .updateMark)

def unaryOperator : Parser String :=
  trimmed (lexeme (.word ["typeof", "void", "delete", "await"]) <|> lexeme .unaryMark)

def unaryBody : Parser Node :=
  node ((fun operator argument =>
        if operator == "await" then .await argument else .unary operator argument) <$>
      unaryOperator <*> unary)
    <|> node ((fun operator argument => .update operator argument true) <$>
      updateOperator <*> unary)
    <|> (fun (extent, argument, operator?) =>
        match operator? with
        | none => argument
        | some operator =>
          ⟨⟨extent.start, extent.content⟩, .update operator argument false⟩) <$>
      .located (Prod.mk <$> callExpression <*> .optional updateOperator)

/-- The text of an operator between two operands, with the comments after it. -/
def infixText : Parser String :=
  trimmed (lexeme .infixMark <|> lexeme (.word ["instanceof", "in"]))

def knownOperator (part : String × Node) : Except SyntaxError (BinaryOp × Node) :=
  (readable (BinaryOp.ofText? part.1)).map (·, part.2)

/-- Operands with operators between them. The operators are looked up after all
operands have been read. -/
def operation : Parser Node :=
  .check (Prod.mk <$> unary <*> .many (Prod.mk <$> infixText <*> unary)) fun (first, rest) =>
    (rest.mapM knownOperator).map (foldOperators first)

def conditional : Parser Node :=
  (fun (extent, test, branches) =>
      match branches with
      | none => test
      | some (consequent, alternate) =>
        ⟨⟨extent.start, extent.content⟩, .conditional test consequent alternate⟩) <$>
    .located (Prod.mk <$> operation <*>
      .optional (Prod.mk <$> (lexeme .question *> assignment <* symbol ":") <*> assignment))

/-! ## Assignments and functions -/

def arrowFunction : Parser Node :=
  node ((fun isAsync params body => .arrowFunction params body isAsync) <$>
    (Option.isSome <$> .optional (keyword "async"))
      <*> (params <|> (fun id => [id.node]) <$> identifier)
      <*> (symbol "=>" *> (block <|> assignment)))

def yieldExpression : Parser Node :=
  node ((fun delegate argument => .yield argument delegate) <$>
    (.terminal (.command "yield") *> generatorStar)
      <*> .optional (.unless (.oneOf ['\r', '\n', ';', '}', ')', ']', ',', ':']) *> assignment)
      <* trivia)

def assignOp? (text : String) : Option AssignOp :=
  if text == "=" then some .plain
  else (BinaryOp.ofText? (String.ofList text.toList.dropLast)).map .compound

def assignmentExpression : Parser Node :=
  node (.check ((fun left operator right => (left, operator, right)) <$>
      callExpression <*> lexeme .assign <*> assignment)
    fun (left, operator, right) =>
      (readable (assignOp? operator)).map fun op =>
        .assignment (if op == .plain then toPattern left else left) op right)

def assignmentBody : Parser Node :=
  arrowFunction <|> yieldExpression <|> assignmentExpression <|> conditional

def expressionBody : Parser Node :=
  (fun (extent, expressions) =>
      match expressions with
      | [expression] => expression
      | expressions => ⟨⟨extent.start, extent.content⟩, .sequence expressions⟩) <$>
    .located (separated assignment)

end TemplateLint.Grammar
