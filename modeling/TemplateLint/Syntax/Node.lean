import TemplateLint.Syntax.Name
import TemplateLint.Syntax.Operator

/-!
# The syntax tree

A node is a span together with a form, and the form holds the parts of the node:
further nodes, names, operators and flags. Statements, expressions, patterns and
markup share one type, because patterns may hold any expression as a target and
markup may stand wherever an expression may.
-/

namespace TemplateLint.Syntax

/-- The value of a literal. A text is a list of code points, because an escape
can write half of a surrogate pair. -/
inductive LiteralValue where
  | null
  | bool (value : Bool)
  | int (value : Nat)
  | float (value : Float)
  | text (points : List Nat)

namespace LiteralValue

/-- Whether the value counts as true in a test. -/
def isTruthy : LiteralValue → Bool
  | .null => false
  | .bool value => value
  | .int value => value != 0
  | .float value => value != 0.0
  | .text points => !points.isEmpty

end LiteralValue

inductive Role where
  | declaration
  | expression
  deriving DecidableEq, Repr

inductive MethodKind where
  | method | constructor | getter | setter
  deriving DecidableEq, Repr

namespace MethodKind

def text : MethodKind → String
  | .method => "method" | .constructor => "constructor" | .getter => "get" | .setter => "set"

end MethodKind

/-- How a property of an object literal or pattern is written. -/
inductive PropertyStyle where
  | keyed
  /-- A name that is both key and value. -/
  | shorthand
  | method
  | getter
  | setter
  deriving DecidableEq, Repr

namespace PropertyStyle

def kind : PropertyStyle → String
  | .getter => "get"
  | .setter => "set"
  | .keyed | .shorthand | .method => "init"

end PropertyStyle

mutual

/-- A node of the syntax tree. -/
inductive Node where
  | mk (span : Span) (form : Form)

/-- What a piece of syntax is, with its parts in source order. -/
inductive Form where
  | program (body : List Node)
  | importDeclaration (specifiers : List Node) (source : Node)
  | importSpecifier (imported binding : Ident)
  | importDefault (binding : Ident)
  | importNamespace (binding : Ident)
  | exportNamed (declaration : Option Node) (specifiers : List Node) (source : Option Node)
  | exportSpecifier (binding exported : Ident)
  | exportDefault (declaration : Node)
  | exportAll (source : Node)
  | decorator (expression : Node)
  | classDefinition (role : Role) (decorators : List Node) (id : Option Ident)
      (superClass : Option Node) (body : Node)
  | classBody (members : List Node)
  | methodDefinition (decorators : List Node) (key value : Node) (kind : MethodKind)
      (isStatic computed : Bool)
  | classProperty (decorators : List Node) (key : Node) (value : Option Node)
      (isStatic computed : Bool)
  | function (role : Role) (id : Option Ident) (params : List Node) (body : Node)
      (isAsync generator : Bool)
  | arrowFunction (params : List Node) (body : Node) (isAsync : Bool)
  /-- The kind is the text between the start of the declaration and its first
  target. -/
  | variableDeclaration (declarations : List Node) (kind : String)
  | variableDeclarator (target : Node) (init : Option Node)
  | arrayPattern (elements : List (Option Node))
  | objectPattern (properties : List Node)
  | assignmentPattern (left right : Node)
  | restElement (argument : Node)
  | identifier (name : String)
  | literal (value : LiteralValue) (raw : String)
  | templateLiteral (quasis : List String) (expressions : List Node)
  | taggedTemplate (tag quasi : Node)
  | this
  | super
  | newTarget
  | arrayExpression (elements : List (Option Node))
  | objectExpression (properties : List Node)
  | property (key value : Node) (style : PropertyStyle) (computed : Bool)
  | spreadElement (argument : Node)
  | member (object property : Node) (computed : Bool)
  | call (callee : Node) (arguments : List Node)
  | construct (callee : Node) (arguments : List Node)
  | unary (operator : String) (argument : Node)
  | update (operator : String) (argument : Node) (leading : Bool)
  | binary (left : Node) (operator : BinaryOp) (right : Node)
  | assignment (left : Node) (operator : AssignOp) (right : Node)
  | conditional (test consequent alternate : Node)
  | sequence (expressions : List Node)
  | await (argument : Node)
  | yield (argument : Option Node) (delegate : Bool)
  | block (body : List Node)
  | expressionStatement (expression : Node)
  | emptyStatement
  | ifStatement (test consequent : Node) (alternate : Option Node)
  | whileStatement (test body : Node)
  | doWhileStatement (body test : Node)
  | forStatement (init test update : Option Node) (body : Node)
  | forInStatement (left right body : Node)
  | forOfStatement (left right body : Node)
  | switchStatement (discriminant : Node) (cases : List Node)
  | switchCase (test : Option Node) (consequent : List Node)
  | tryStatement (block : Node) (handler finalizer : Option Node)
  | catchClause (param : Option Node) (body : Node)
  | returnStatement (argument : Option Node)
  | throwStatement (argument : Node)
  | breakStatement (label : Option Ident)
  | continueStatement (label : Option Ident)
  | labeledStatement (label : Ident) (body : Node)
  | jsxElement (opening : Node) (children : List Node) (closing : Option Node)
  | jsxFragment (children : List Node)
  | jsxOpening (name : TagName) (attributes : List Node) (selfClosing : Bool)
  | jsxClosing (name : TagName)
  | jsxAttribute (name : TagName) (value : Option Node)
  | jsxSpreadAttribute (argument : Node)
  | jsxName (name : TagName)
  | jsxContainer (expression : Node)
  | jsxEmpty
  | jsxText (value : String)
  | jsxSpreadChild (expression : Node)

end

instance : Inhabited Node := ⟨⟨⟨0, 0⟩, .emptyStatement⟩⟩

namespace Node

def span : Node → Span
  | ⟨span, _⟩ => span

def form : Node → Form
  | ⟨_, form⟩ => form

def start (node : Node) : Nat := node.span.start

def stop (node : Node) : Nat := node.span.stop

def text (source : List Char) (node : Node) : String :=
  String.ofList ((source.drop node.start).take (node.stop - node.start))

def identifier? : Node → Option String
  | ⟨_, .identifier name⟩ => some name
  | _ => none

def isBlock : Node → Bool
  | ⟨_, .block _⟩ => true
  | _ => false

end Node

def Ident.node (id : Ident) : Node := ⟨id.span, .identifier id.name⟩

def TagName.node (name : TagName) : Node := ⟨name.span, .jsxName name⟩

namespace Form

def typeName : Form → String
  | .program .. => "Program"
  | .importDeclaration .. => "ImportDeclaration"
  | .importSpecifier .. => "ImportSpecifier"
  | .importDefault .. => "ImportDefaultSpecifier"
  | .importNamespace .. => "ImportNamespaceSpecifier"
  | .exportNamed .. => "ExportNamedDeclaration"
  | .exportSpecifier .. => "ExportSpecifier"
  | .exportDefault .. => "ExportDefaultDeclaration"
  | .exportAll .. => "ExportAllDeclaration"
  | .decorator .. => "Decorator"
  | .classDefinition .declaration .. => "ClassDeclaration"
  | .classDefinition .expression .. => "ClassExpression"
  | .classBody .. => "ClassBody"
  | .methodDefinition .. => "MethodDefinition"
  | .classProperty .. => "ClassProperty"
  | .function .declaration .. => "FunctionDeclaration"
  | .function .expression .. => "FunctionExpression"
  | .arrowFunction .. => "ArrowFunctionExpression"
  | .variableDeclaration .. => "VariableDeclaration"
  | .variableDeclarator .. => "VariableDeclarator"
  | .arrayPattern .. => "ArrayPattern"
  | .objectPattern .. => "ObjectPattern"
  | .assignmentPattern .. => "AssignmentPattern"
  | .restElement .. => "RestElement"
  | .identifier .. => "Identifier"
  | .literal .. => "Literal"
  | .templateLiteral .. => "TemplateLiteral"
  | .taggedTemplate .. => "TaggedTemplateExpression"
  | .this => "ThisExpression"
  | .super => "Super"
  | .newTarget => "MetaProperty"
  | .arrayExpression .. => "ArrayExpression"
  | .objectExpression .. => "ObjectExpression"
  | .property .. => "Property"
  | .spreadElement .. => "SpreadElement"
  | .member .. => "MemberExpression"
  | .call .. => "CallExpression"
  | .construct .. => "NewExpression"
  | .unary .. => "UnaryExpression"
  | .update .. => "UpdateExpression"
  | .binary _ op _ => if op.isLogical then "LogicalExpression" else "BinaryExpression"
  | .assignment .. => "AssignmentExpression"
  | .conditional .. => "ConditionalExpression"
  | .sequence .. => "SequenceExpression"
  | .await .. => "AwaitExpression"
  | .yield .. => "YieldExpression"
  | .block .. => "BlockStatement"
  | .expressionStatement .. => "ExpressionStatement"
  | .emptyStatement => "EmptyStatement"
  | .ifStatement .. => "IfStatement"
  | .whileStatement .. => "WhileStatement"
  | .doWhileStatement .. => "DoWhileStatement"
  | .forStatement .. => "ForStatement"
  | .forInStatement .. => "ForInStatement"
  | .forOfStatement .. => "ForOfStatement"
  | .switchStatement .. => "SwitchStatement"
  | .switchCase .. => "SwitchCase"
  | .tryStatement .. => "TryStatement"
  | .catchClause .. => "CatchClause"
  | .returnStatement .. => "ReturnStatement"
  | .throwStatement .. => "ThrowStatement"
  | .breakStatement .. => "BreakStatement"
  | .continueStatement .. => "ContinueStatement"
  | .labeledStatement .. => "LabeledStatement"
  | .jsxElement .. => "JSXElement"
  | .jsxFragment .. => "JSXFragment"
  | .jsxOpening .. => "JSXOpeningElement"
  | .jsxClosing .. => "JSXClosingElement"
  | .jsxAttribute .. => "JSXAttribute"
  | .jsxSpreadAttribute .. => "JSXSpreadAttribute"
  | .jsxName (.simple _) => "JSXIdentifier"
  | .jsxName (.namespaced ..) => "JSXNamespacedName"
  | .jsxName (.member ..) => "JSXMemberExpression"
  | .jsxContainer .. => "JSXExpressionContainer"
  | .jsxEmpty => "JSXEmptyExpression"
  | .jsxText .. => "JSXText"
  | .jsxSpreadChild .. => "JSXSpreadChild"

end Form

def Node.typeName (node : Node) : String := node.form.typeName

end TemplateLint.Syntax
