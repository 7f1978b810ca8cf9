import TemplateLint.Syntax.Tree

/-!
# Scope events

Going through a program in evaluation order meets a sequence of events (`Node.scopeEvents`); the
tables are built from these alone.

A node is visited in one of three modes. Evaluated, an identifier is a read. Declared, the
identifiers of a pattern are declared, and written too if a value comes with the declaration.
Assigned, they are written. Defaults and computed keys are evaluated in every mode.
-/

namespace TemplateLint.Scope

open TemplateLint.Syntax

/-- What opens a scope. -/
inductive ScopeKind where
  | global | module | function | functionName | classBody | block | loop | switch | catching
  deriving DecidableEq, Repr

namespace ScopeKind

def text : ScopeKind → String
  | .global => "global" | .module => "module" | .function => "function"
  | .functionName => "function-expression-name" | .classBody => "class" | .block => "block"
  | .loop => "for" | .switch => "switch" | .catching => "catch"

/-- Scopes that take the variables hoisted out of the scopes inside them. -/
def hoists : ScopeKind → Bool
  | .global | .module | .function => true
  | _ => false

end ScopeKind

/-- How a variable is declared. -/
inductive VariableKind where
  | imported
  | declared (words : String)
  | function | functionName | classDeclaration | className | param | caught | implicit | global
  deriving DecidableEq, Repr

namespace VariableKind

def text : VariableKind → String
  | .imported => "import" | .declared words => words | .function => "function"
  | .functionName => "function-name" | .classDeclaration => "class"
  | .className => "class-name" | .param => "param" | .caught => "catch"
  | .implicit => "implicit" | .global => "global"

/-- Variables that are never reported as unused. -/
def isSilent : VariableKind → Bool
  | .param | .caught | .className | .functionName | .global | .implicit => true
  | _ => false

end VariableKind

/-- An identifier and its place. -/
structure Occurrence where
  place : Path
  id : Ident
  deriving DecidableEq, Repr

/-- What a reference does with its variable. An initial write comes with the
declaration. -/
structure Access where
  reads : Bool
  writes : Bool
  initial : Bool
  deriving DecidableEq, Repr

namespace Access

def read : Access := ⟨true, false, false⟩
def write : Access := ⟨false, true, false⟩
def readWrite : Access := ⟨true, true, false⟩
def initialWrite : Access := ⟨false, true, true⟩

end Access

/-- What a program does to scopes, met in the order in which scopes are built. -/
inductive Event where
  | enter (kind : ScopeKind) (block : Path)
  | leave
  /-- A name is declared in the current scope, or in the scope that hoisted
  variables of the current one go to. -/
  | declare (hoisted : Bool) (name : String) (kind : VariableKind)
      (definition : Option Occurrence)
  | refer (occurrence : Occurrence) (access : Access)
  | exported (name : String)
  deriving DecidableEq, Repr

/-- How a node is visited. -/
inductive Mode where
  | evaluate
  | declare (kind : VariableKind) (hoisted written : Bool)
  | assign (access : Access)
  deriving DecidableEq, Repr

namespace Mode

/-- The mode for the parts of a pattern. -/
def inner : Mode → Mode
  | .assign _ => .assign .write
  | mode => mode

/-- The mode for the declarators of a declaration: at the head of a loop over
elements or keys the targets are written. -/
def declarators (words : String) (mode : Mode) : Mode :=
  .declare (.declared words) (words == "var") (mode matches .assign _)

/-- The mode for the target of a declarator, which is written if there is a value. -/
def withValue (hasValue : Bool) : Mode → Mode
  | .declare kind hoisted written => .declare kind hoisted (written || hasValue)
  | mode => mode

/-- What an identifier does in a mode. -/
def identifier (mode : Mode) (occurrence : Occurrence) : List Event :=
  match mode with
  | .evaluate => [.refer occurrence .read]
  | .assign access => [.refer occurrence access]
  | .declare kind hoisted written =>
    .declare hoisted occurrence.id.name kind (some occurrence)
      :: if written then [.refer occurrence .initialWrite] else []

end Mode

/-! ## Names bound by patterns and declarations -/

mutual

/-- The identifiers that a pattern binds, in source order. -/
def boundIdents : Node → List Ident
  | ⟨span, .identifier name⟩ => [⟨span, name⟩]
  | ⟨_, .arrayPattern elements⟩ => boundIdentsSparse elements
  | ⟨_, .objectPattern properties⟩ => boundIdentsList properties
  | ⟨_, .assignmentPattern left _⟩ => boundIdents left
  | ⟨_, .restElement argument⟩ => boundIdents argument
  | ⟨_, .property _ value _ _⟩ => boundIdents value
  | _ => []

def boundIdentsSparse : List (Option Node) → List Ident
  | [] => []
  | none :: rest => boundIdentsSparse rest
  | some element :: rest => boundIdents element ++ boundIdentsSparse rest

def boundIdentsList : List Node → List Ident
  | [] => []
  | property :: rest => boundIdents property ++ boundIdentsList rest

end

/-- The names that an exported declaration exports. -/
def declaredNames : Node → List String
  | ⟨_, .variableDeclaration declarations _⟩ =>
    declarations.flatMap fun declarator =>
      match declarator with
      | ⟨_, .variableDeclarator target _⟩ => (boundIdents target).map Ident.name
      | _ => []
  | ⟨_, .function _ (some id) ..⟩ => [id.name]
  | ⟨_, .classDefinition _ _ (some id) ..⟩ => [id.name]
  | _ => []

def defaultExportName? : Node → Option String
  | ⟨_, .function .declaration id ..⟩ => id.map Ident.name
  | ⟨_, .classDefinition _ _ id ..⟩ => id.map Ident.name
  | _ => none

def importedBinding? (place : Path) : Node → Option Occurrence
  | ⟨_, .importSpecifier _ binding⟩ => some ⟨place.child .binding, binding⟩
  | ⟨_, .importDefault binding⟩ => some ⟨place.child .binding, binding⟩
  | ⟨_, .importNamespace binding⟩ => some ⟨place.child .binding, binding⟩
  | _ => none

def importEvents (here : Path) (specifiers : List Node) : List Event :=
  specifiers.zipIdx.filterMap fun (specifier, index) =>
    (importedBinding? (here.item .specifiers index) specifier).map fun occurrence =>
      .declare true occurrence.id.name .imported (some occurrence)

/-- A name that is exported is also read. -/
def exportEvents (here : Path) (specifiers : List Node) : List Event :=
  specifiers.zipIdx.flatMap fun (specifier, index) =>
    match specifier with
    | ⟨_, .exportSpecifier binding _⟩ =>
      [.refer ⟨(here.item .specifiers index).child .binding, binding⟩ .read,
        .exported binding.name]
    | _ => []

def nameEvents (here : Path) (kind : VariableKind) : Option Ident → List Event
  | none => []
  | some id => [.declare false id.name kind (some ⟨here.child .id, id⟩)]

/-- Events inside a scope of their own. -/
def inScope (kind : ScopeKind) (block : Path) (events : List Event) : List Event :=
  .enter kind block :: events ++ [.leave]

def inScopeIf (condition : Bool) (kind : ScopeKind) (block : Path) (events : List Event) :
    List Event :=
  if condition then inScope kind block events else events

/-- Parameters and body, with `arguments` declared first. -/
def functionScope (here : Path) (params body : List Event) : List Event :=
  inScope .function here (.declare false "arguments" .implicit none :: params ++ body)

/-- The declaration of a loop whose variables are local to the loop. -/
def isLoopLocal : Node → Bool
  | ⟨_, .variableDeclaration _ kind⟩ => kind != "var"
  | _ => false

/-- Forms that mean something to a declaration. -/
def isPatternPart : Form → Bool
  | .identifier _ | .arrayPattern _ | .objectPattern _ | .assignmentPattern .. | .restElement _
  | .property .. | .variableDeclarator .. => true
  | _ => false

/-! ## The events of a program -/

mutual

/-- The events of a node that is visited in a mode. -/
def scopeEvents (mode : Mode) (here : Path) : Node → List Event
  | ⟨span, form⟩ =>
    if (mode matches .declare ..) && !isPatternPart form then []
    else formEvents mode here span form

/-- The events of a form, its parts in source order. -/
def formEvents (mode : Mode) (here : Path) (span : Span) : Form → List Event
  -- names and patterns
  | .identifier name => mode.identifier ⟨here, ⟨span, name⟩⟩
  | .arrayPattern elements => sparseEvents mode.inner here .elements 0 elements
  | .objectPattern properties => listEvents mode.inner here .properties 0 properties
  | .assignmentPattern left right =>
    scopeEvents mode.inner (here.child .left) left
      ++ scopeEvents .evaluate (here.child .right) right
  | .restElement argument => scopeEvents mode.inner (here.child .argument) argument
  | .property key value _ computed =>
    (if computed then scopeEvents .evaluate (here.child .key) key else [])
      ++ scopeEvents mode.inner (here.child .value) value
  | .variableDeclarator target init =>
    scopeEvents (mode.withValue init.isSome) (here.child .id) target
      ++ optionEvents here .init init
  | .variableDeclaration declarations kind =>
    listEvents (mode.declarators kind) here .declarations 0 declarations
  -- writes
  | .assignment left operator right =>
    scopeEvents (.assign (if operator == .plain then .write else .readWrite))
        (here.child .left) left
      ++ scopeEvents .evaluate (here.child .right) right
  | .update _ argument _ =>
    scopeEvents (if argument.identifier?.isSome then .assign .readWrite else .evaluate)
      (here.child .argument) argument
  -- modules
  | .program body => inScope .module here (listEvents .evaluate here .body 0 body)
  | .importDeclaration specifiers _ => importEvents here specifiers
  | .exportNamed (some declaration) _ _ =>
    scopeEvents .evaluate (here.child .declaration) declaration
      ++ (declaredNames declaration).map .exported
  | .exportNamed none specifiers none => exportEvents here specifiers
  | .exportNamed none _ (some _) => []
  | .exportDefault declaration =>
    scopeEvents .evaluate (here.child .declaration) declaration
      ++ (defaultExportName? declaration).toList.map .exported
  | .exportAll _ => []
  -- functions and classes
  | .function .declaration id params body _ _ =>
    nameEvents here .function id
      ++ functionScope here (listEvents (.declare .param false false) here .params 0 params)
        (bodyEvents here body)
  | .function .expression id params body _ _ =>
    inScopeIf id.isSome .functionName here
      (nameEvents here .functionName id
        ++ functionScope here (listEvents (.declare .param false false) here .params 0 params)
          (bodyEvents here body))
  | .arrowFunction params body _ =>
    inScope .function here
      (listEvents (.declare .param false false) here .params 0 params ++ bodyEvents here body)
  | .classDefinition role decorators id superClass body =>
    listEvents .evaluate here .decorators 0 decorators
      ++ (if role == .declaration then nameEvents here .classDeclaration id else [])
      ++ optionEvents here .superClass superClass
      ++ inScope .classBody here
        (nameEvents here .className id ++ scopeEvents .evaluate (here.child .body) body)
  | .classBody members => listEvents .evaluate here .body 0 members
  | .methodDefinition decorators key value _ _ computed =>
    listEvents .evaluate here .decorators 0 decorators
      ++ (if computed then scopeEvents .evaluate (here.child .key) key else [])
      ++ scopeEvents .evaluate (here.child .value) value
  | .classProperty decorators key value _ computed =>
    listEvents .evaluate here .decorators 0 decorators
      ++ (if computed then scopeEvents .evaluate (here.child .key) key else [])
      ++ optionEvents here .value value
  -- statements with scopes of their own
  | .block body => inScope .block here (listEvents .evaluate here .body 0 body)
  | .forStatement init test update body =>
    inScopeIf (init.any isLoopLocal) .loop here
      (optionEvents here .init init ++ optionEvents here .test test
        ++ optionEvents here .update update ++ scopeEvents .evaluate (here.child .body) body)
  | .forInStatement left right body | .forOfStatement left right body =>
    inScopeIf (isLoopLocal left) .loop here
      (scopeEvents .evaluate (here.child .right) right
        ++ scopeEvents (.assign .write) (here.child .left) left
        ++ scopeEvents .evaluate (here.child .body) body)
  | .switchStatement discriminant cases =>
    scopeEvents .evaluate (here.child .discriminant) discriminant
      ++ inScope .switch here (listEvents .evaluate here .cases 0 cases)
  | .catchClause param body =>
    inScope .catching here
      (paramEvents here param ++ scopeEvents .evaluate (here.child .body) body)
  -- names that are no references
  | .member object property computed =>
    scopeEvents .evaluate (here.child .object) object
      ++ (if computed then scopeEvents .evaluate (here.child .property) property else [])
  | .labeledStatement _ body => scopeEvents .evaluate (here.child .body) body
  | .breakStatement _ | .continueStatement _ | .newTarget => []
  | .importSpecifier .. | .importDefault _ | .importNamespace _ | .exportSpecifier .. => []
  | .jsxName _ | .jsxClosing _ => []
  -- everything else is evaluated in source order
  | .literal .. | .this | .super | .emptyStatement | .jsxEmpty | .jsxText _ => []
  | .decorator expression | .expressionStatement expression | .jsxContainer expression
  | .jsxSpreadChild expression => scopeEvents .evaluate (here.child .expression) expression
  | .spreadElement argument | .unary _ argument | .await argument | .throwStatement argument
  | .jsxSpreadAttribute argument => scopeEvents .evaluate (here.child .argument) argument
  | .yield argument _ | .returnStatement argument => optionEvents here .argument argument
  | .templateLiteral _ expressions | .sequence expressions =>
    listEvents .evaluate here .expressions 0 expressions
  | .taggedTemplate tag quasi =>
    scopeEvents .evaluate (here.child .tag) tag ++ scopeEvents .evaluate (here.child .quasi) quasi
  | .arrayExpression elements => sparseEvents .evaluate here .elements 0 elements
  | .objectExpression properties => listEvents .evaluate here .properties 0 properties
  | .call callee arguments | .construct callee arguments =>
    scopeEvents .evaluate (here.child .callee) callee
      ++ listEvents .evaluate here .arguments 0 arguments
  | .binary left _ right =>
    scopeEvents .evaluate (here.child .left) left
      ++ scopeEvents .evaluate (here.child .right) right
  | .conditional test consequent alternate =>
    scopeEvents .evaluate (here.child .test) test
      ++ scopeEvents .evaluate (here.child .consequent) consequent
      ++ scopeEvents .evaluate (here.child .alternate) alternate
  | .ifStatement test consequent alternate =>
    scopeEvents .evaluate (here.child .test) test
      ++ scopeEvents .evaluate (here.child .consequent) consequent
      ++ optionEvents here .alternate alternate
  | .whileStatement test body =>
    scopeEvents .evaluate (here.child .test) test
      ++ scopeEvents .evaluate (here.child .body) body
  | .doWhileStatement body test =>
    scopeEvents .evaluate (here.child .body) body
      ++ scopeEvents .evaluate (here.child .test) test
  | .switchCase test consequent =>
    optionEvents here .test test ++ listEvents .evaluate here .consequent 0 consequent
  | .tryStatement block handler finalizer =>
    scopeEvents .evaluate (here.child .block) block ++ optionEvents here .handler handler
      ++ optionEvents here .finalizer finalizer
  | .jsxElement opening children _ =>
    scopeEvents .evaluate (here.child .openingElement) opening
      ++ listEvents .evaluate here .children 0 children
  | .jsxFragment children => listEvents .evaluate here .children 0 children
  | .jsxOpening _ attributes _ => listEvents .evaluate here .attributes 0 attributes
  | .jsxAttribute _ value => optionEvents here .value value

def optionEvents (here : Path) (field : Field) : Option Node → List Event
  | none => []
  | some node => scopeEvents .evaluate (here.child field) node

def listEvents (mode : Mode) (here : Path) (field : Field) (index : Nat) : List Node → List Event
  | [] => []
  | node :: rest =>
    scopeEvents mode (here.item field index) node ++ listEvents mode here field (index + 1) rest

def sparseEvents (mode : Mode) (here : Path) (field : Field) (index : Nat) :
    List (Option Node) → List Event
  | [] => []
  | none :: rest => sparseEvents mode here field (index + 1) rest
  | some node :: rest =>
    scopeEvents mode (here.item field index) node ++ sparseEvents mode here field (index + 1) rest

def paramEvents (here : Path) : Option Node → List Event
  | none => []
  | some param => scopeEvents (.declare .caught false false) (here.child .param) param

def bodyEvents (here : Path) : Node → List Event
  | ⟨_, .block statements⟩ => listEvents .evaluate (here.child .body) .body 0 statements
  | ⟨span, form⟩ => formEvents .evaluate (here.child .body) span form

end

/-- The events of a program. -/
def programEvents (root : Node) : List Event := scopeEvents .evaluate [] root

end TemplateLint.Scope
