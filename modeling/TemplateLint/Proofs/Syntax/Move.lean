import TemplateLint.Syntax.Tree

/-!
# Moving the offsets of a syntax tree

Moving a syntax tree changes its offsets and nothing else (`Node.move`). Moving commutes with the
view of a node as a tree (`Node.tree_move`).
-/

namespace TemplateLint.Syntax

variable (σ : Nat → Nat) (field : Field)

/-! ## Spans and names -/

/-- The span with its offsets moved by `σ`. -/
def Span.move (span : Span) : Span := ⟨σ span.start, σ span.stop⟩

def Ident.move (id : Ident) : Ident := ⟨id.span.move σ, id.name⟩

@[simp] theorem Ident.span_move (id : Ident) : (id.move σ).span = id.span.move σ := rfl

namespace TagName

def move : TagName → TagName
  | .simple id => .simple (id.move σ)
  | .namespaced space name => .namespaced (space.move σ) (name.move σ)
  | .member object property => .member object.move (property.move σ)

@[simp] theorem start_move (name : TagName) : (name.move σ).start = σ name.start := by
  induction name with
  | simple id => rfl
  | namespaced space name => rfl
  | member object property ih => exact ih

@[simp] theorem stop_move (name : TagName) : (name.move σ).stop = σ name.stop := by
  cases name <;> rfl

@[simp] theorem render_move (name : TagName) : (name.move σ).render = name.render := by
  induction name with
  | simple id => rfl
  | namespaced space name => rfl
  | member object property ih => simp only [move, render, ih, Ident.move]

end TagName

/-! ## Nodes -/

mutual

/-- The form with all offsets in it moved by `σ`. -/
def Form.move : Form → Form
  | .program body => .program (moveAll body)
  | .importDeclaration specifiers source =>
    .importDeclaration (moveAll specifiers) source.move
  | .importSpecifier imported binding => .importSpecifier (imported.move σ) (binding.move σ)
  | .importDefault binding => .importDefault (binding.move σ)
  | .importNamespace binding => .importNamespace (binding.move σ)
  | .exportNamed declaration specifiers source =>
    .exportNamed (move? declaration) (moveAll specifiers) (move? source)
  | .exportSpecifier binding exported => .exportSpecifier (binding.move σ) (exported.move σ)
  | .exportDefault declaration => .exportDefault declaration.move
  | .exportAll source => .exportAll source.move
  | .decorator expression => .decorator expression.move
  | .classDefinition role decorators id superClass body =>
    .classDefinition role (moveAll decorators) (id.map (Ident.move σ)) (move? superClass) body.move
  | .classBody members => .classBody (moveAll members)
  | .methodDefinition decorators key value kind isStatic computed =>
    .methodDefinition (moveAll decorators) key.move value.move kind isStatic computed
  | .classProperty decorators key value isStatic computed =>
    .classProperty (moveAll decorators) key.move (move? value) isStatic computed
  | .function role id params body isAsync generator =>
    .function role (id.map (Ident.move σ)) (moveAll params) body.move isAsync generator
  | .arrowFunction params body isAsync => .arrowFunction (moveAll params) body.move isAsync
  | .variableDeclaration declarations kind => .variableDeclaration (moveAll declarations) kind
  | .variableDeclarator target init => .variableDeclarator target.move (move? init)
  | .arrayPattern elements => .arrayPattern (moveAll? elements)
  | .objectPattern properties => .objectPattern (moveAll properties)
  | .assignmentPattern left right => .assignmentPattern left.move right.move
  | .restElement argument => .restElement argument.move
  | .identifier name => .identifier name
  | .literal value raw => .literal value raw
  | .templateLiteral quasis expressions => .templateLiteral quasis (moveAll expressions)
  | .taggedTemplate tag quasi => .taggedTemplate tag.move quasi.move
  | .this => .this
  | .super => .super
  | .newTarget => .newTarget
  | .arrayExpression elements => .arrayExpression (moveAll? elements)
  | .objectExpression properties => .objectExpression (moveAll properties)
  | .property key value style computed => .property key.move value.move style computed
  | .spreadElement argument => .spreadElement argument.move
  | .member object property computed => .member object.move property.move computed
  | .call callee arguments => .call callee.move (moveAll arguments)
  | .construct callee arguments => .construct callee.move (moveAll arguments)
  | .unary operator argument => .unary operator argument.move
  | .update operator argument leading => .update operator argument.move leading
  | .binary left operator right => .binary left.move operator right.move
  | .assignment left operator right => .assignment left.move operator right.move
  | .conditional test consequent alternate => .conditional test.move consequent.move alternate.move
  | .sequence expressions => .sequence (moveAll expressions)
  | .await argument => .await argument.move
  | .yield argument delegate => .yield (move? argument) delegate
  | .block body => .block (moveAll body)
  | .expressionStatement expression => .expressionStatement expression.move
  | .emptyStatement => .emptyStatement
  | .ifStatement test consequent alternate =>
    .ifStatement test.move consequent.move (move? alternate)
  | .whileStatement test body => .whileStatement test.move body.move
  | .doWhileStatement body test => .doWhileStatement body.move test.move
  | .forStatement init test update body =>
    .forStatement (move? init) (move? test) (move? update) body.move
  | .forInStatement left right body => .forInStatement left.move right.move body.move
  | .forOfStatement left right body => .forOfStatement left.move right.move body.move
  | .switchStatement discriminant cases => .switchStatement discriminant.move (moveAll cases)
  | .switchCase test consequent => .switchCase (move? test) (moveAll consequent)
  | .tryStatement block handler finalizer =>
    .tryStatement block.move (move? handler) (move? finalizer)
  | .catchClause param body => .catchClause (move? param) body.move
  | .returnStatement argument => .returnStatement (move? argument)
  | .throwStatement argument => .throwStatement argument.move
  | .breakStatement label => .breakStatement (label.map (Ident.move σ))
  | .continueStatement label => .continueStatement (label.map (Ident.move σ))
  | .labeledStatement label body => .labeledStatement (label.move σ) body.move
  | .jsxElement opening children closing =>
    .jsxElement opening.move (moveAll children) (move? closing)
  | .jsxFragment children => .jsxFragment (moveAll children)
  | .jsxOpening name attributes selfClosing =>
    .jsxOpening (name.move σ) (moveAll attributes) selfClosing
  | .jsxClosing name => .jsxClosing (name.move σ)
  | .jsxAttribute name value => .jsxAttribute (name.move σ) (move? value)
  | .jsxSpreadAttribute argument => .jsxSpreadAttribute argument.move
  | .jsxName name => .jsxName (name.move σ)
  | .jsxContainer expression => .jsxContainer expression.move
  | .jsxEmpty => .jsxEmpty
  | .jsxText value => .jsxText value
  | .jsxSpreadChild expression => .jsxSpreadChild expression.move

/-- The node with all offsets in it moved by `σ`. -/
def Node.move : Node → Node
  | ⟨span, form⟩ => ⟨span.move σ, form.move⟩

def move? : Option Node → Option Node
  | none => none
  | some node => some node.move

def moveAll : List Node → List Node
  | [] => []
  | node :: rest => node.move :: moveAll rest

def moveAll? : List (Option Node) → List (Option Node)
  | [] => []
  | none :: rest => none :: moveAll? rest
  | some node :: rest => some node.move :: moveAll? rest

end

@[simp] theorem move?_eq_map (node? : Option Node) : move? σ node? = node?.map (Node.move σ) := by
  cases node? <;> rw [move?] <;> rfl

@[simp] theorem moveAll_eq_map (nodes : List Node) : moveAll σ nodes = nodes.map (Node.move σ) := by
  induction nodes with
  | nil => rw [moveAll, List.map_nil]
  | cons node rest ih => rw [moveAll, ih, List.map_cons]

@[simp] theorem moveAll?_eq_map (nodes : List (Option Node)) :
    moveAll? σ nodes = nodes.map (Option.map (Node.move σ)) := by
  induction nodes with
  | nil => rw [moveAll?, List.map_nil]
  | cons node? rest ih => cases node? <;> rw [moveAll?, ih] <;> rfl

namespace Node

@[simp] theorem start_move (node : Node) : (node.move σ).start = σ node.start := by
  obtain ⟨span, form⟩ := node
  rw [move]
  rfl

@[simp] theorem stop_move (node : Node) : (node.move σ).stop = σ node.stop := by
  obtain ⟨span, form⟩ := node
  rw [move]
  rfl

end Node

@[simp] theorem Ident.node_move (id : Ident) : (id.move σ).node = id.node.move σ := by
  rw [Ident.node, Ident.node, Node.move, Form.move]
  rfl

/-! ## Views -/

mutual

/-- A tree with the nodes in it moved. The fields and the steps to the children stay. -/
def Tree.move : Tree → Tree
  | .mk node layout children => .mk (node.move σ) layout (moveChildren children)

def moveChildren : List (Step × Tree) → List (Step × Tree)
  | [] => []
  | (step, tree) :: rest => (step, tree.move) :: moveChildren rest

end

theorem moveChildren_eq_map (children : List (Step × Tree)) :
    moveChildren σ children = children.map fun child => (child.1, child.2.move σ) := by
  induction children with
  | nil => rw [moveChildren, List.map_nil]
  | cons child rest ih =>
    obtain ⟨step, tree⟩ := child
    rw [moveChildren, ih, List.map_cons]

namespace Fields

def move (fields : Fields) : Fields :=
  ⟨fields.layout, fields.children.map fun child => (child.1, child.2.move σ)⟩

@[simp] theorem move_append (first second : Fields) :
    (first ++ second).move σ = first.move σ ++ second.move σ := by
  have children : (first ++ second).children = first.children ++ second.children := rfl
  rw [move, children, List.map_append]
  rfl

@[simp] theorem move_one (tree : Tree) :
    (one field tree).move σ = one field (tree.move σ) := rfl

@[simp] theorem move_optional (tree? : Option Tree) :
    (optional field tree?).move σ = optional field (tree?.map (Tree.move σ)) := by
  cases tree? <;> rfl

@[simp] theorem move_many (trees : List Tree) :
    (many field trees).move σ = many field (trees.map (Tree.move σ)) := by
  simp only [many, move, List.map_map, List.zipIdx_map]
  rfl

@[simp] theorem move_sparse (trees : List (Option Tree)) :
    (sparse field trees).move σ = sparse field (trees.map (Option.map (Tree.move σ))) := by
  have numbered : ∀ first, ((trees.zipIdx first).filterMap fun entry =>
        entry.1.map fun tree => ((⟨field, entry.2⟩ : Step), tree)).map
          (fun child => (child.1, child.2.move σ))
      = ((trees.map (Option.map (Tree.move σ))).zipIdx first).filterMap fun entry =>
        entry.1.map fun tree => ((⟨field, entry.2⟩ : Step), tree) := by
    induction trees with
    | nil => exact fun first => rfl
    | cons tree? rest ih =>
      intro first
      cases tree? with
      | none => exact ih (first + 1)
      | some tree => exact congrArg ((⟨field, first⟩, tree.move σ) :: ·) (ih (first + 1))
  have present : trees.map Option.isSome
      = (trees.map (Option.map (Tree.move σ))).map Option.isSome := by
    simp
  rw [sparse, sparse, ← present]
  exact congrArg (Fields.mk _) (numbered 0)

@[simp] theorem move_text (value : String) :
    (text field value).move σ = text field value := rfl

@[simp] theorem move_texts (values : List String) :
    (texts field values).move σ = texts field values := rfl

@[simp] theorem move_flag (value : Bool) :
    (flag field value).move σ = flag field value := rfl

@[simp] theorem move_literal (value : LiteralValue) :
    (literal field value).move σ = literal field value := rfl

@[simp] theorem move_empty : empty.move σ = empty := rfl

theorem treeOf_move (node : Node) (fields : Fields) :
    treeOf (node.move σ) (fields.move σ) = (treeOf node fields).move σ := by
  rw [treeOf, treeOf, Tree.move, moveChildren_eq_map]
  rfl

end Fields

@[simp] theorem Ident.tree_move (id : Ident) : (id.move σ).tree = id.tree.move σ := by
  rw [Ident.tree, Ident.tree, ← Fields.treeOf_move, Ident.node_move]
  rfl

@[simp] theorem TagName.node_move (name : TagName) : (name.move σ).node = name.node.move σ := by
  rw [TagName.node, TagName.node, Node.move, Form.move, Span.move]
  simp [TagName.span]

@[simp] theorem TagName.tree_move (name : TagName) : (name.move σ).tree = name.tree.move σ := by
  have part : ∀ id : Ident, Fields.treeOf (TagName.simple (id.move σ)).node
        (Fields.text .name id.name)
      = (Fields.treeOf (TagName.simple id).node (Fields.text .name id.name)).move σ := by
    intro id
    rw [← Fields.treeOf_move, ← TagName.node_move]
    rfl
  induction name with
  | simple id => exact part id
  | namespaced space name =>
    rw [TagName.tree, ← Fields.treeOf_move, ← TagName.node_move, Fields.move_append,
      Fields.move_one, Fields.move_one, ← part, ← part]
    rfl
  | member object property ih =>
    rw [TagName.tree, ← Fields.treeOf_move, ← TagName.node_move, Fields.move_append,
      Fields.move_one, Fields.move_one, ← part, ← ih]
    rfl

theorem Ident.tree_comp_move : Ident.tree ∘ Ident.move σ = Tree.move σ ∘ Ident.tree := by
  funext id
  exact id.tree_move σ

@[simp] theorem Node.isBlock_move (node : Node) : (node.move σ).isBlock = node.isBlock := by
  obtain ⟨span, form⟩ := node
  rw [Node.move]
  cases form <;> rw [Form.move] <;> rfl

mutual

/-- Moving commutes with viewing a node as a tree. -/
theorem Node.tree_move : (node : Node) → (node.move σ).tree = node.tree.move σ
  | ⟨span, form⟩ => by
    rw [Node.move, Node.tree, Node.tree, Form.fields_move form, ← Fields.treeOf_move, Node.move]

theorem Form.fields_move : (form : Form) → (form.move σ).fields = form.fields.move σ := by
  intro form
  cases form with
  | jsxName name =>
    rw [Form.move, Form.fields, Form.fields, name.tree_move]
    cases name.tree with
    | mk node layout children =>
      rw [Tree.move, moveChildren_eq_map]
      rfl
  | _ =>
    simp only [Form.move, Form.fields, Fields.move_append, Fields.move_one, Fields.move_optional,
      Fields.move_many, Fields.move_sparse, Fields.move_text, Fields.move_texts, Fields.move_flag,
      Fields.move_literal, Fields.move_empty, move?_eq_map, moveAll_eq_map, moveAll?_eq_map,
      Node.tree_move, treeOf?_move, treesOf_move, treesOf?_move, Ident.tree_move, TagName.tree_move,
      Option.map_map, Ident.tree_comp_move, Node.isBlock_move]

theorem treeOf?_move : (node? : Option Node) →
    treeOf? (node?.map (Node.move σ)) = (treeOf? node?).map (Tree.move σ)
  | none => by rw [Option.map_none, treeOf?, Option.map_none]
  | some node => by rw [Option.map_some, treeOf?, treeOf?, Option.map_some, Node.tree_move node]

theorem treesOf_move : (nodes : List Node) →
    treesOf (nodes.map (Node.move σ)) = (treesOf nodes).map (Tree.move σ)
  | [] => by rw [List.map_nil, treesOf, List.map_nil]
  | node :: rest => by
    rw [List.map_cons, treesOf, treesOf, List.map_cons, Node.tree_move node, treesOf_move rest]

theorem treesOf?_move : (nodes : List (Option Node)) →
    treesOf? (nodes.map (Option.map (Node.move σ)))
      = (treesOf? nodes).map (Option.map (Tree.move σ))
  | [] => by rw [List.map_nil, treesOf?, List.map_nil]
  | none :: rest => by
    rw [List.map_cons, Option.map_none, treesOf?, treesOf?, List.map_cons, treesOf?_move rest]
    rfl
  | some node :: rest => by
    rw [List.map_cons, Option.map_some, treesOf?, treesOf?, List.map_cons, Node.tree_move node,
      treesOf?_move rest]
    rfl

end

end TemplateLint.Syntax
