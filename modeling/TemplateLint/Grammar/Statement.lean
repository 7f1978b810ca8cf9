import TemplateLint.Grammar.Class

/-!
# Statements and module declarations
-/

namespace TemplateLint.Grammar

open TemplateLint.Syntax

/-! ## Declarations -/

def variableKind : Parser String := trimmed (lexeme (.word ["var", "let", "const"]))

def variableDeclarator : Parser Node :=
  node (.variableDeclarator <$> bindingTarget <*> .optional initializer)

def variableDeclaration : Parser Form :=
  (fun kind declarations => .variableDeclaration declarations kind) <$>
    variableKind <*> separated variableDeclarator

def variableStatement : Parser Node := node (variableDeclaration <* semicolon)

def functionDeclaration : Parser Node := functionOf .declaration (some <$> identifier)

def classDeclaration : Parser Node := classOf .declaration (some <$> identifier)

/-! ## Modules -/

def importSpecifier : Parser Node :=
  node ((fun imported alias? => .importSpecifier imported (alias?.getD imported)) <$>
    anyName <*> .optional (keyword "as" *> identifier))

def importNamespace : Parser (List Node) :=
  ([·]) <$> node (.importNamespace <$> (symbol "*" *> keyword "as" *> identifier))

def importNamed : Parser (List Node) := braced (commaList importSpecifier)

def importDefault : Parser (List Node) :=
  (fun (id : Ident) more => ⟨id.span, .importDefault id⟩ :: more.getD []) <$>
    identifier <*> .optional (symbol "," *> (importNamespace <|> importNamed))

def importDeclaration : Parser Node :=
  node (Function.uncurry .importDeclaration <$>
    (keyword "import" *>
      (Prod.mk <$> (importNamespace <|> importNamed <|> importDefault)
          <*> (keyword "from" *> stringLiteral)
        <|> ([], ·) <$> stringLiteral)
      <* semicolon))

def exportSpecifier : Parser Node :=
  node ((fun binding alias? => .exportSpecifier binding (alias?.getD binding)) <$>
    anyName <*> .optional (keyword "as" *> anyName))

def exportDefault : Parser Form :=
  .exportDefault <$> (keyword "default" *>
    (classOf .declaration (.optional identifier)
      <|> functionOf .declaration (.optional identifier)
      <|> assignment <* semicolon))

def exportAll : Parser Form :=
  .exportAll <$> (symbol "*" *> keyword "from" *> stringLiteral <* semicolon)

def exportNamed : Parser Form :=
  .exportNamed none <$> braced (commaList exportSpecifier)
    <*> .optional (keyword "from" *> stringLiteral) <* semicolon

def exportedDeclaration : Parser Form :=
  (fun declaration => .exportNamed (some declaration) [] none) <$>
    (variableStatement <|> functionDeclaration <|> classDeclaration)

def decorateClass (decorators : List Node) : Node → Option Node
  | ⟨span, .classDefinition role own id superClass body⟩ =>
    some ⟨span, .classDefinition role (decorators ++ own) id superClass body⟩
  | _ => none

def decorateExport (decorators : List Node) (form : Form) : Option Form :=
  if decorators.isEmpty then some form
  else match form with
    | .exportNamed (some declaration) specifiers source =>
      (decorateClass decorators declaration).map fun decorated =>
        .exportNamed (some decorated) specifiers source
    | .exportDefault declaration => (decorateClass decorators declaration).map .exportDefault
    | _ => none

def exportDeclaration : Parser Node :=
  node (.check (.located (Prod.mk <$> .many decorator <*>
      (keyword "export" *>
        (exportDefault <|> exportAll <|> exportNamed <|> exportedDeclaration))))
    fun (extent, decorators, form) =>
      match decorateExport decorators form with
      | some form => .ok form
      | none => .error (.misplacedDecorators extent.start))

/-! ## Control flow -/

def test : Parser Node := parenthesized expression

def ifStatement : Parser Node :=
  node (.ifStatement <$> (keyword "if" *> test) <*> statement
    <*> .optional (keyword "else" *> statement))

def whileStatement : Parser Node :=
  node (.whileStatement <$> (keyword "while" *> test) <*> statement)

def doWhileStatement : Parser Node :=
  node (.doWhileStatement <$> (keyword "do" *> statement) <*> (keyword "while" *> test)
    <* semicolon)

def loopDeclaration : Parser Node :=
  node ((fun kind target =>
      .variableDeclaration [⟨target.span, .variableDeclarator target none⟩] kind) <$>
    variableKind <*> bindingTarget)

def forEachStatement : Parser Node :=
  node ((fun left operator right body =>
      if operator == "of" then .forOfStatement left right body
      else .forInStatement left right body) <$>
    (keyword "for" *> symbol "(" *> (loopDeclaration <|> callExpression))
      <*> trimmed (keyword "in" <|> keyword "of") <*> (expression <* symbol ")") <*> statement)

def forStatement : Parser Node :=
  node (.forStatement <$>
    (keyword "for" *> symbol "(" *> .optional (node variableDeclaration <|> expression))
      <*> (symbol ";" *> .optional expression)
      <*> (symbol ";" *> .optional expression <* symbol ")")
      <*> statement)

def switchCase : Parser Node :=
  node (.switchCase <$>
    (some <$> (keyword "case" *> expression <* symbol ":")
      <|> (fun _ => none) <$> (keyword "default" *> symbol ":"))
      <*> .many statement)

def switchStatement : Parser Node :=
  node (.switchStatement <$> (keyword "switch" *> test) <*> braced (.many switchCase))

def catchClause : Parser Node :=
  node (.catchClause <$> (keyword "catch" *> .optional (parenthesized bindingTarget)) <*> block)

def tryStatement : Parser Node :=
  node (.tryStatement <$> (keyword "try" *> block) <*> .optional catchClause
    <*> .optional (keyword "finally" *> block))

def returnStatement : Parser Node :=
  node (.returnStatement <$>
    (.terminal (.command "return")
      *> .optional (.unless (.oneOf ['\r', '\n', ';', '}']) *> expression)
      <* trivia <* semicolon))

def throwStatement : Parser Node :=
  node (.throwStatement <$> (keyword "throw" *> expression <* semicolon))

def jump (word : String) (form : Option Ident → Form) : Parser Node :=
  node (form <$>
    (.terminal (.command word) *> .optional identifier <* trivia <* semicolon))

def labeledStatement : Parser Node :=
  node (.labeledStatement <$> (identifier <* symbol ":") <*> statement)

def statementBody : Parser Node :=
  block
    <|> node ((fun _ => .emptyStatement) <$> symbol ";")
    <|> variableStatement
    <|> functionDeclaration
    <|> classDeclaration
    <|> importDeclaration
    <|> exportDeclaration
    <|> ifStatement
    <|> forEachStatement
    <|> forStatement
    <|> whileStatement
    <|> doWhileStatement
    <|> switchStatement
    <|> tryStatement
    <|> returnStatement
    <|> throwStatement
    <|> jump "break" .breakStatement
    <|> jump "continue" .continueStatement
    <|> labeledStatement
    <|> node (.expressionStatement <$> expression <* semicolon)

end TemplateLint.Grammar
