import TemplateLint.Grammar.Binding

/-!
# Classes and decorators, calls and members
-/

namespace TemplateLint.Grammar

open TemplateLint.Syntax

/-! ## What follows a called or accessed expression -/

/-- What may follow an expression. -/
inductive Tail where
  | member (property : Node) (computed : Bool)
  | call (arguments : List Node)
  | template (quasi : Node)

def applyTail (callee : Node) (tail : Extent × Tail) : Node :=
  ⟨⟨callee.start, tail.1.content⟩,
    match tail.2 with
    | .member property computed => .member callee property computed
    | .call arguments => .call callee arguments
    | .template quasi => .taggedTemplate callee quasi⟩

def spreadOrAssignment : Parser Node :=
  node (.spreadElement <$> (symbol "..." *> assignment)) <|> assignment

def arguments : Parser (List Node) := parenthesized (commaList spreadOrAssignment)

def dotMember : Parser Tail := (fun id => .member id.node false) <$> (symbol "." *> anyName)

def computedMember : Parser Tail := (.member · true) <$> bracketed expression

def callTail : Parser Tail :=
  Tail.call <$> arguments <|> dotMember <|> computedMember <|> Tail.template <$> templateLiteral

/-! ## Decorators and classes -/

def decorator : Parser Node :=
  node ((fun (id : Ident) members arguments =>
      .decorator ((members ++ arguments.toList).foldl applyTail id.node)) <$>
    (mark "@" *> identifier) <*> .many (.located dotMember)
      <*> .optional (.located (Tail.call <$> arguments)))

def staticMark : Parser Bool :=
  Option.isSome <$> .optional (lexeme (.modifier ["static"] (memberMarks ++ ['@'])))

def keyIs (name : String) : Node → Bool
  | ⟨_, .identifier text⟩ => text == name
  | ⟨_, .literal (.text points) _⟩ => points == name.toList.map Char.toNat
  | _ => false

def methodKind (accessor : Option String) (isStatic : Bool) (key : Node × Bool) : MethodKind :=
  match accessor with
  | some "get" => .getter
  | some "set" => .setter
  | _ => if !isStatic && !key.2 && keyIs "constructor" key.1 then .constructor else .method

def methodDefinition : Parser Node :=
  node ((fun decorators isStatic accessor generator key params body =>
      .methodDefinition decorators key.1
        (methodFunction (accessor == some "async") generator params body)
        (methodKind accessor isStatic key) isStatic key.2) <$>
    .many decorator <*> staticMark <*> accessor <*> generatorStar <*> propertyKey
      <*> .located params <*> block)

def classProperty : Parser Node :=
  node ((fun decorators isStatic key value =>
      .classProperty decorators key.1 value isStatic key.2) <$>
    .many decorator <*> staticMark <*> propertyKey <*> .optional initializer <* semicolon)

def classMember : Parser (Option Node) :=
  some <$> methodDefinition <|> some <$> classProperty <|> (fun _ => none) <$> symbol ";"

def classBody : Parser Node :=
  node ((fun members => .classBody (members.filterMap id)) <$> braced (.many classMember))

def classOf (role : Role) (name : Parser (Option Ident)) : Parser Node :=
  node ((fun decorators id superClass body =>
      .classDefinition role decorators id superClass body) <$>
    (.many decorator <* keyword "class") <*> name
      <*> .optional (keyword "extends" *> callExpression) <*> classBody)

end TemplateLint.Grammar
