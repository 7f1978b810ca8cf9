import TemplateLint.Syntax.Node

/-!
# The generic view of a syntax tree

`Node.tree` unfolds a node into a tree whose edges are labelled by the field and the index that
lead to a child, together with a layout of all fields of the node. It is the only place that
fixes the order of the fields. Names are nodes of this view too.

The place of a node is the path of steps to it, the last step first. `Tree.walk` lists all
places in source order, a node before its children, and `Tree.at?` looks a place up.
-/

namespace TemplateLint.Syntax

inductive Field where
  | body | sourceType | specifiers | source | imported | binding | declaration | exported
  | expression | decorators | id | superClass | key | value | kind | isStatic | computed
  | params | isAsync | generator | declarations | init | elements | properties | left | right
  | argument | name | raw | quasis | expressions | tag | quasi | metaName | property | shorthand
  | method | object | optional | callee | arguments | operator | leading | test | consequent
  | alternate | delegate | update | discriminant | cases | block | handler | finalizer | param
  | label | openingElement | children | closingElement | attributes | selfClosing | space
  deriving DecidableEq, Repr

namespace Field

def text : Field → String
  | .body => "body" | .sourceType => "source_type" | .specifiers => "specifiers"
  | .source => "source" | .imported => "imported" | .binding => "local"
  | .declaration => "declaration" | .exported => "exported" | .expression => "expression"
  | .decorators => "decorators" | .id => "id" | .superClass => "super_class" | .key => "key"
  | .value => "value" | .kind => "kind" | .isStatic => "static" | .computed => "computed"
  | .params => "params" | .isAsync => "is_async" | .generator => "generator"
  | .declarations => "declarations" | .init => "init" | .elements => "elements"
  | .properties => "properties" | .left => "left" | .right => "right" | .argument => "argument"
  | .name => "name" | .raw => "raw" | .quasis => "quasis" | .expressions => "expressions"
  | .tag => "tag" | .quasi => "quasi" | .metaName => "meta" | .property => "property"
  | .shorthand => "shorthand" | .method => "method" | .object => "object"
  | .optional => "optional" | .callee => "callee" | .arguments => "arguments"
  | .operator => "operator" | .leading => "prefix" | .test => "test"
  | .consequent => "consequent" | .alternate => "alternate" | .delegate => "delegate"
  | .update => "update" | .discriminant => "discriminant" | .cases => "cases"
  | .block => "block" | .handler => "handler" | .finalizer => "finalizer" | .param => "param"
  | .label => "label" | .openingElement => "opening_element" | .children => "children"
  | .closingElement => "closing_element" | .attributes => "attributes"
  | .selfClosing => "self_closing" | .space => "namespace"

end Field

structure Step where
  field : Field
  index : Nat
  deriving DecidableEq, Repr

/-- The place of a node: the steps that lead to it from the root, the last
first. -/
abbrev Path := List Step

instance : LawfulBEq Path := inferInstance

namespace Path

def child (here : Path) (field : Field) : Path := ⟨field, 0⟩ :: here

def item (here : Path) (field : Field) (index : Nat) : Path := ⟨field, index⟩ :: here

end Path

/-- What a field holds. -/
inductive Content where
  | child
  | absent
  /-- A list of children; a place that is left out is `false`. -/
  | list (present : List Bool)
  | text (value : String)
  | texts (values : List String)
  | flag (value : Bool)
  | literal (value : LiteralValue)

inductive Tree where
  | mk (node : Node) (layout : List (Field × Content)) (children : List (Step × Tree))

instance : Inhabited Tree := ⟨.mk default [] []⟩

namespace Tree

def node : Tree → Node
  | .mk node _ _ => node

def layout : Tree → List (Field × Content)
  | .mk _ layout _ => layout

def children : Tree → List (Step × Tree)
  | .mk _ _ children => children

end Tree

/-! ## Laying out a node -/

/-- A run of fields with the children they contribute. -/
structure Fields where
  layout : List (Field × Content)
  children : List (Step × Tree)

namespace Fields

instance : Append Fields := ⟨fun a b => ⟨a.layout ++ b.layout, a.children ++ b.children⟩⟩

def one (field : Field) (tree : Tree) : Fields := ⟨[(field, .child)], [(⟨field, 0⟩, tree)]⟩

def optional (field : Field) : Option Tree → Fields
  | some tree => one field tree
  | none => ⟨[(field, .absent)], []⟩

def many (field : Field) (trees : List Tree) : Fields :=
  ⟨[(field, .list (trees.map fun _ => true))],
    trees.zipIdx.map fun (tree, index) => (⟨field, index⟩, tree)⟩

def sparse (field : Field) (trees : List (Option Tree)) : Fields :=
  ⟨[(field, .list (trees.map Option.isSome))],
    trees.zipIdx.filterMap fun (tree, index) => tree.map fun tree => (⟨field, index⟩, tree)⟩

def text (field : Field) (value : String) : Fields := ⟨[(field, .text value)], []⟩

def texts (field : Field) (values : List String) : Fields := ⟨[(field, .texts values)], []⟩

def flag (field : Field) (value : Bool) : Fields := ⟨[(field, .flag value)], []⟩

def literal (field : Field) (value : LiteralValue) : Fields := ⟨[(field, .literal value)], []⟩

def empty : Fields := ⟨[], []⟩

def treeOf (node : Node) (fields : Fields) : Tree := .mk node fields.layout fields.children

end Fields

open Fields (one optional many sparse text texts flag literal treeOf)

def Ident.tree (id : Ident) : Tree := treeOf id.node (text .name id.name)

def TagName.tree : TagName → Tree
  | .simple id => treeOf (TagName.simple id).node (text .name id.name)
  | .namespaced space name =>
    treeOf (TagName.namespaced space name).node
      (one .space (treeOf (TagName.simple space).node (text .name space.name))
        ++ one .name (treeOf (TagName.simple name).node (text .name name.name)))
  | .member object property =>
    treeOf (TagName.member object property).node
      (one .object object.tree
        ++ one .property (treeOf (TagName.simple property).node (text .name property.name)))

mutual

/-- The parts of a form, in order. -/
def Form.fields : Form → Fields
  | .program body => many .body (treesOf body) ++ text .sourceType "module"
  | .importDeclaration specifiers source =>
    many .specifiers (treesOf specifiers) ++ one .source source.tree
  | .importSpecifier imported binding =>
    one .imported imported.tree ++ one .binding binding.tree
  | .importDefault binding => one .binding binding.tree
  | .importNamespace binding => one .binding binding.tree
  | .exportNamed declaration specifiers source =>
    optional .declaration (treeOf? declaration) ++ many .specifiers (treesOf specifiers)
      ++ optional .source (treeOf? source)
  | .exportSpecifier binding exported =>
    one .binding binding.tree ++ one .exported exported.tree
  | .exportDefault declaration => one .declaration declaration.tree
  | .exportAll source => one .source source.tree
  | .decorator expression => one .expression expression.tree
  | .classDefinition _ decorators id superClass body =>
    many .decorators (treesOf decorators) ++ optional .id (id.map Ident.tree)
      ++ optional .superClass (treeOf? superClass) ++ one .body body.tree
  | .classBody members => many .body (treesOf members)
  | .methodDefinition decorators key value kind isStatic computed =>
    many .decorators (treesOf decorators) ++ one .key key.tree ++ one .value value.tree
      ++ text .kind kind.text ++ flag .isStatic isStatic ++ flag .computed computed
  | .classProperty decorators key value isStatic computed =>
    many .decorators (treesOf decorators) ++ one .key key.tree
      ++ optional .value (treeOf? value) ++ flag .isStatic isStatic ++ flag .computed computed
  | .function _ id params body isAsync generator =>
    optional .id (id.map Ident.tree) ++ many .params (treesOf params) ++ one .body body.tree
      ++ flag .isAsync isAsync ++ flag .generator generator
  | .arrowFunction params body isAsync =>
    many .params (treesOf params) ++ one .body body.tree ++ flag .isAsync isAsync
      ++ flag .expression !body.isBlock
  | .variableDeclaration declarations kind =>
    many .declarations (treesOf declarations) ++ text .kind kind
  | .variableDeclarator target init => one .id target.tree ++ optional .init (treeOf? init)
  | .arrayPattern elements => sparse .elements (treesOf? elements)
  | .objectPattern properties => many .properties (treesOf properties)
  | .assignmentPattern left right => one .left left.tree ++ one .right right.tree
  | .restElement argument => one .argument argument.tree
  | .identifier name => text .name name
  | .literal value raw => literal .value value ++ text .raw raw
  | .templateLiteral quasis expressions =>
    texts .quasis quasis ++ many .expressions (treesOf expressions)
  | .taggedTemplate tag quasi => one .tag tag.tree ++ one .quasi quasi.tree
  | .this => .empty
  | .super => .empty
  | .newTarget => text .metaName "new" ++ text .property "target"
  | .arrayExpression elements => sparse .elements (treesOf? elements)
  | .objectExpression properties => many .properties (treesOf properties)
  | .property key value style computed =>
    one .key key.tree ++ one .value value.tree ++ text .kind style.kind
      ++ flag .computed computed ++ flag .shorthand (style == .shorthand)
      ++ flag .method (style == .method)
  | .spreadElement argument => one .argument argument.tree
  | .member object property computed =>
    one .object object.tree ++ one .property property.tree ++ flag .computed computed
      ++ flag .optional false
  | .call callee arguments =>
    one .callee callee.tree ++ many .arguments (treesOf arguments) ++ flag .optional false
  | .construct callee arguments =>
    one .callee callee.tree ++ many .arguments (treesOf arguments)
  | .unary operator argument => text .operator operator ++ one .argument argument.tree
  | .update operator argument leading =>
    text .operator operator ++ one .argument argument.tree ++ flag .leading leading
  | .binary left operator right =>
    one .left left.tree ++ text .operator operator.text ++ one .right right.tree
  | .assignment left operator right =>
    one .left left.tree ++ text .operator operator.text ++ one .right right.tree
  | .conditional test consequent alternate =>
    one .test test.tree ++ one .consequent consequent.tree ++ one .alternate alternate.tree
  | .sequence expressions => many .expressions (treesOf expressions)
  | .await argument => one .argument argument.tree
  | .yield argument delegate =>
    optional .argument (treeOf? argument) ++ flag .delegate delegate
  | .block body => many .body (treesOf body)
  | .expressionStatement expression => one .expression expression.tree
  | .emptyStatement => .empty
  | .ifStatement test consequent alternate =>
    one .test test.tree ++ one .consequent consequent.tree
      ++ optional .alternate (treeOf? alternate)
  | .whileStatement test body => one .test test.tree ++ one .body body.tree
  | .doWhileStatement body test => one .body body.tree ++ one .test test.tree
  | .forStatement init test update body =>
    optional .init (treeOf? init) ++ optional .test (treeOf? test)
      ++ optional .update (treeOf? update) ++ one .body body.tree
  | .forInStatement left right body =>
    one .left left.tree ++ one .right right.tree ++ one .body body.tree
  | .forOfStatement left right body =>
    one .left left.tree ++ one .right right.tree ++ one .body body.tree
  | .switchStatement discriminant cases =>
    one .discriminant discriminant.tree ++ many .cases (treesOf cases)
  | .switchCase test consequent =>
    optional .test (treeOf? test) ++ many .consequent (treesOf consequent)
  | .tryStatement block handler finalizer =>
    one .block block.tree ++ optional .handler (treeOf? handler)
      ++ optional .finalizer (treeOf? finalizer)
  | .catchClause param body => optional .param (treeOf? param) ++ one .body body.tree
  | .returnStatement argument => optional .argument (treeOf? argument)
  | .throwStatement argument => one .argument argument.tree
  | .breakStatement label => optional .label (label.map Ident.tree)
  | .continueStatement label => optional .label (label.map Ident.tree)
  | .labeledStatement label body => one .label label.tree ++ one .body body.tree
  | .jsxElement opening children closing =>
    one .openingElement opening.tree ++ many .children (treesOf children)
      ++ optional .closingElement (treeOf? closing)
  | .jsxFragment children => many .children (treesOf children)
  | .jsxOpening name attributes selfClosing =>
    one .name name.tree ++ many .attributes (treesOf attributes) ++ flag .selfClosing selfClosing
  | .jsxClosing name => one .name name.tree
  | .jsxAttribute name value => one .name name.tree ++ optional .value (treeOf? value)
  | .jsxSpreadAttribute argument => one .argument argument.tree
  | .jsxName name => ⟨name.tree.layout, name.tree.children⟩
  | .jsxContainer expression => one .expression expression.tree
  | .jsxEmpty => .empty
  | .jsxText value => text .value value
  | .jsxSpreadChild expression => one .expression expression.tree

def Node.tree : Node → Tree
  | ⟨span, form⟩ => treeOf ⟨span, form⟩ form.fields

def treeOf? : Option Node → Option Tree
  | none => none
  | some node => some node.tree

def treesOf : List Node → List Tree
  | [] => []
  | node :: rest => node.tree :: treesOf rest

def treesOf? : List (Option Node) → List (Option Tree)
  | [] => []
  | none :: rest => none :: treesOf? rest
  | some node :: rest => some node.tree :: treesOf? rest

end

/-! ## Places -/

namespace Tree

def child? (tree : Tree) (step : Step) : Option Tree :=
  tree.children.lookup step

def at? (root : Tree) : Path → Option Tree
  | [] => some root
  | step :: parent => (root.at? parent).bind (·.child? step)

def nodeAt? (root : Tree) (place : Path) : Option Node := (root.at? place).map node

mutual

def walk (here : Path) : Tree → List (Path × Tree)
  | .mk node layout children => (here, .mk node layout children) :: walkList here children

def walkList (here : Path) : List (Step × Tree) → List (Path × Tree)
  | [] => []
  | (step, tree) :: rest => walk (step :: here) tree ++ walkList here rest

end

/-- All places of a tree, a node before its children. -/
def places (tree : Tree) : List (Path × Tree) := tree.walk []

def ancestors (root : Tree) : Path → List Node
  | [] => []
  | _ :: parent => (root.nodeAt? parent).toList ++ root.ancestors parent

def parent? (root : Tree) : Path → Option Node
  | [] => none
  | _ :: parent => root.nodeAt? parent

mutual

def size : Tree → Nat
  | .mk _ _ children => 1 + sizeList children

def sizeList : List (Step × Tree) → Nat
  | [] => 0
  | (_, tree) :: rest => tree.size + sizeList rest

end

end Tree

end TemplateLint.Syntax
