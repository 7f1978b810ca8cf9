import TemplateLint.Proofs.Syntax.Places

/-!
# The shape of programs

The type of nodes is wider than the grammar: a declaration could stand as an operand, and
anything at all could be declared. `Node.Shaped` says what a tree read from a text has
everywhere: the parts of a node are of the kind that the node is for (`Form.WellBuilt`), and
declarations of variables and the specifiers of an export stand in their places only
(`Form.Admits`).
-/

namespace TemplateLint.Syntax

/-! ## Kinds of parts -/

namespace Node

def isDeclaration : Node → Bool
  | ⟨_, .variableDeclaration ..⟩ => true
  | _ => false

def isDeclarator : Node → Bool
  | ⟨_, .variableDeclarator ..⟩ => true
  | _ => false

def isImportSpecifier : Node → Bool
  | ⟨_, .importSpecifier ..⟩ | ⟨_, .importDefault _⟩ | ⟨_, .importNamespace _⟩ => true
  | _ => false

def isExportSpecifier : Node → Bool
  | ⟨_, .exportSpecifier ..⟩ => true
  | _ => false

def isLiteral : Node → Bool
  | ⟨_, .literal ..⟩ => true
  | _ => false

def isPlainKey : Node → Bool
  | ⟨_, .identifier _⟩ | ⟨_, .literal ..⟩ => true
  | _ => false

def isClosingTag : Node → Bool
  | ⟨_, .jsxClosing _⟩ => true
  | _ => false

end Node

mutual

/-- A pattern, or a part of one, whose targets are identifiers. -/
def Node.isBinding : Node → Bool
  | ⟨_, .identifier _⟩ => true
  | ⟨_, .arrayPattern elements⟩ => allBinding? elements
  | ⟨_, .objectPattern properties⟩ => allBinding properties
  | ⟨_, .assignmentPattern left _⟩ => left.isBinding
  | ⟨_, .restElement argument⟩ => argument.isBinding
  | ⟨_, .property _ value _ _⟩ => value.isBinding
  | _ => false

def allBinding : List Node → Bool
  | [] => true
  | node :: rest => node.isBinding && allBinding rest

def allBinding? : List (Option Node) → Bool
  | [] => true
  | none :: rest => allBinding? rest
  | some node :: rest => node.isBinding && allBinding? rest

end

theorem allBinding_iff (nodes : List Node) :
    allBinding nodes = true ↔ ∀ node ∈ nodes, node.isBinding = true := by
  induction nodes with
  | nil => simp [allBinding]
  | cons node rest ih => simp [allBinding, ih]

theorem allBinding?_iff (nodes : List (Option Node)) :
    allBinding? nodes = true ↔ ∀ node, some node ∈ nodes → node.isBinding = true := by
  induction nodes with
  | nil => simp [allBinding?]
  | cons node? rest ih => cases node? <;> simp [allBinding?, ih]

/-- The parts of a pattern that are patterns in their turn. -/
def Form.passesOn : Form → Field → Bool
  | .arrayPattern _, _ | .objectPattern _, _ | .restElement _, _ => true
  | .assignmentPattern .., field => field == .left
  | .property .., field => field == .value
  | _, _ => false

theorem Node.isBinding_part {span : Span} {form : Form}
    (binding : Node.isBinding ⟨span, form⟩ = true) :
    form.fields.All fun field tree => form.passesOn field = true → tree.node.isBinding = true := by
  cases form with
  | arrayPattern => simpa [Form.fields, Form.passesOn, isBinding, allBinding?_iff] using binding
  | objectPattern => simpa [Form.fields, Form.passesOn, isBinding, allBinding_iff] using binding
  | restElement | assignmentPattern | property =>
    simpa [Form.fields, Form.passesOn, isBinding] using binding
  | _ => exact fun _ _ passes => Bool.noConfusion passes

/-! ## Shaped nodes -/

namespace Form

/-- The parts of a form are of the kinds it is for. -/
def WellBuilt : Form → Prop
  | .importDeclaration specifiers source =>
    (∀ specifier ∈ specifiers, specifier.isImportSpecifier = true) ∧ source.isLiteral = true
  | .exportNamed declaration specifiers source =>
    (∀ specifier ∈ specifiers, specifier.isExportSpecifier = true)
      ∧ (∀ node ∈ source, node.isLiteral = true) ∧ (declaration.isSome = true → specifiers = [])
  | .exportAll source => source.isLiteral = true
  | .variableDeclaration declarations _ =>
    ∀ declarator ∈ declarations, declarator.isDeclarator = true
  | .variableDeclarator target _ => target.isBinding = true
  | .function _ _ params _ _ _ | .arrowFunction params _ _ =>
    ∀ param ∈ params, param.isBinding = true
  | .catchClause param _ => ∀ node ∈ param, node.isBinding = true
  | .property key _ _ computed | .methodDefinition _ key _ _ _ computed
  | .classProperty _ key _ _ computed | .member _ key computed =>
    computed = false → key.isPlainKey = true
  | .jsxElement _ _ closing => ∀ node ∈ closing, node.isClosingTag = true
  | _ => True

/-- The fields in which a variable declaration may stand. -/
def takesDeclaration : Form → Field → Bool
  | .program _, field | .block _, field | .whileStatement .., field
  | .doWhileStatement .., field | .labeledStatement .., field => field == .body
  | .ifStatement .., field => field == .consequent || field == .alternate
  | .forStatement .., field => field == .init || field == .body
  | .forInStatement .., field | .forOfStatement .., field => field == .left || field == .body
  | .switchCase .., field => field == .consequent
  | .exportNamed .., field => field == .declaration
  | _, _ => false

def takesSpecifier : Form → Field → Bool
  | .exportNamed .., field => field == .specifiers
  | _, _ => false

/-- A node may stand in a field of a form. -/
def Admits (form : Form) (field : Field) (part : Node) : Prop :=
  (part.isDeclaration = true → form.takesDeclaration field = true)
    ∧ (part.isExportSpecifier = true → form.takesSpecifier field = true)

theorem Admits.isDeclaration {form : Form} {field : Field} {part : Node}
    (admits : form.Admits field part) (none : form.takesDeclaration field = false) :
    part.isDeclaration = false := by
  simpa [none] using admits.1

theorem Admits.isExportSpecifier {form : Form} {field : Field} {part : Node}
    (admits : form.Admits field part) (none : form.takesSpecifier field = false) :
    part.isExportSpecifier = false := by
  simpa [none] using admits.2

/-- The parts of a form are of the kinds that its fields admit. -/
def Shaped (form : Form) : Prop :=
  form.WellBuilt ∧ form.fields.All fun field tree => form.Admits field tree.node

end Form

theorem Node.everywhere_iff (holds : Form → Prop) (span : Span) (form : Form) :
    (Node.tree ⟨span, form⟩).Everywhere holds
      ↔ holds form ∧ form.fields.All fun _ tree => tree.node.tree.Everywhere holds := by
  have whole : ∀ child ∈ form.fields.children,
      child.2.Everywhere holds ↔ child.2.node.tree.Everywhere holds := by
    intro child member
    have view : child.2 = child.2.node.tree := form.allViews_fields child member
    rw [← view]
  constructor
  · intro everywhere
    have here := everywhere.here
    rw [Node.node_tree] at here
    refine ⟨here, fun child member => (whole child member).1 ?_⟩
    exact everywhere.child child (by rw [Node.tree]; exact member)
  · rintro ⟨here, below⟩
    refine .mk (by rw [Node.node_tree]; exact here) ?_
    rw [Node.tree]
    exact fun child member => (whole child member).2 (below child member)

/-- All forms in a node are shaped. -/
def Node.Shaped (node : Node) : Prop := node.tree.Everywhere Form.Shaped

def Form.Part (form : Form) (field : Field) (node : Node) : Prop :=
  form.Admits field node ∧ node.Shaped

namespace Node

def Statement (node : Node) : Prop := node.Shaped ∧ node.isExportSpecifier = false

/-- What can stand where an expression or a target can. -/
def Operand (node : Node) : Prop :=
  node.Shaped ∧ node.isDeclaration = false ∧ node.isExportSpecifier = false

/-- A pattern whose identifiers are declared. -/
def Binding (node : Node) : Prop := node.Shaped ∧ node.isBinding = true

theorem shaped_iff (span : Span) (form : Form) :
    Shaped ⟨span, form⟩ ↔ form.WellBuilt
      ∧ form.fields.All fun field tree => form.Part field tree.node := by
  rw [Shaped, everywhere_iff, Form.Shaped, and_assoc]
  refine and_congr_right fun _ => ?_
  exact ⟨fun both child member => ⟨both.1 child member, both.2 child member⟩, fun all =>
    ⟨fun child member => (all child member).1, fun child member => (all child member).2⟩⟩

theorem Operand.statement {node : Node} (operand : node.Operand) : node.Statement :=
  ⟨operand.1, operand.2.2⟩

theorem Binding.operand {node : Node} (binding : node.Binding) : node.Operand := by
  obtain ⟨shaped, pattern⟩ := binding
  obtain ⟨span, form⟩ := node
  refine ⟨shaped, ?_, ?_⟩ <;> cases form <;> first | rfl | simp [isBinding] at pattern

theorem Operand.part {node : Node} (operand : node.Operand) (form : Form) (field : Field) :
    form.Part field node := by
  obtain ⟨shaped, noDeclaration, noSpecifier⟩ := operand
  simp [Form.Part, Form.Admits, shaped, noDeclaration, noSpecifier]

theorem operand_of_part {node : Node} {form : Form} {field : Field} (part : form.Part field node)
    (noDeclaration : form.takesDeclaration field = false)
    (noSpecifier : form.takesSpecifier field = false) : node.Operand :=
  ⟨part.2, part.1.isDeclaration noDeclaration, part.1.isExportSpecifier noSpecifier⟩

theorem Statement.part {node : Node} (statement : node.Statement) {form : Form} {field : Field}
    (takes : form.takesDeclaration field = true) : form.Part field node := by
  obtain ⟨shaped, noSpecifier⟩ := statement
  simp [Form.Part, Form.Admits, shaped, noSpecifier, takes]

end Node

@[simp] theorem Ident.node_tree (id : Ident) : id.tree.node = id.node := rfl

@[simp] theorem TagName.node_tree (name : TagName) : name.tree.node = name.node := by
  cases name <;> rfl

theorem Ident.binding_node (id : Ident) : id.node.Binding :=
  ⟨(Node.shaped_iff ..).2 ⟨trivial, by simp [Form.fields]⟩, rfl⟩

end TemplateLint.Syntax
