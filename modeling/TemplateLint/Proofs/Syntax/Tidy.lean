import TemplateLint.Proofs.Syntax.Shape
import TemplateLint.Proofs.Syntax.TagName

/-!
# Tidy programs

On the left of a plain assignment an array or object literal has become a pattern, and so have the
literals inside it that are targets themselves (`Node.isTarget`). Other literals hold expressions
and no patterns, but for a name with a default (`Form.Tidy`). The left of a compound assignment and
the head of a loop stay the expressions that they were read as (`Form.standsAlone`). The two tags of
an element have names that are alike (`Node.IsClosedBy`). Statements, which can declare names around
them, stand in statements and in bodies only (`Form.Confines`).
-/

namespace TemplateLint.Syntax

/-! ## Tidy nodes -/

/-- A form that is no part of a pattern, an object literal or a declaration. -/
def Form.standsAlone : Form → Bool
  | .arrayPattern _ | .objectPattern _ | .assignmentPattern .. | .restElement _ | .property ..
  | .variableDeclarator .. => false
  | _ => true

def Node.isNamedDefault : Node → Bool
  | ⟨_, .assignmentPattern ⟨_, .identifier _⟩ _⟩ => true
  | _ => false

/-- A member of an object literal. Only a name that stands for itself may have a default. -/
def Node.isObjectMember : Node → Bool
  | ⟨_, .property _ value _ _⟩ => value.form.standsAlone || value.isNamedDefault
  | ⟨_, .spreadElement _⟩ => true
  | _ => false

mutual

/-- A target in which every literal that could be a pattern is one. -/
def Node.isTarget : Node → Bool
  | ⟨_, .arrayPattern elements⟩ => allTargets? elements
  | ⟨_, .objectPattern properties⟩ => allTargets properties
  | ⟨_, .assignmentPattern left _⟩ => left.isTarget
  | ⟨_, .restElement argument⟩ => argument.isTarget
  | ⟨_, .property _ value _ _⟩ => value.isTarget
  | ⟨_, .arrayExpression _⟩ | ⟨_, .objectExpression _⟩ | ⟨_, .spreadElement _⟩
  | ⟨_, .assignment _ .plain _⟩ | ⟨_, .variableDeclarator ..⟩ => false
  | _ => true

def allTargets : List Node → Bool
  | [] => true
  | node :: rest => node.isTarget && allTargets rest

def allTargets? : List (Option Node) → Bool
  | [] => true
  | none :: rest => allTargets? rest
  | some node :: rest => node.isTarget && allTargets? rest

end

theorem allTargets_iff (nodes : List Node) :
    allTargets nodes = true ↔ ∀ node ∈ nodes, node.isTarget = true := by
  induction nodes with
  | nil => simp [allTargets]
  | cons node rest ih => simp [allTargets, ih]

theorem allTargets?_iff (nodes : List (Option Node)) :
    allTargets? nodes = true ↔ ∀ node, some node ∈ nodes → node.isTarget = true := by
  induction nodes with
  | nil => simp [allTargets?]
  | cons node? rest ih => cases node? <;> simp [allTargets?, ih]

/-- An opening and a closing tag with names that are alike. -/
def Node.IsClosedBy (opening closing : Node) : Prop :=
  match opening.form, closing.form with
  | .jsxOpening name _ false, .jsxClosing last => name.Alike last
  | _, _ => False

/-- A form whose literals hold expressions, whose targets are patterns where it assigns by a plain
assignment and expressions where it assigns otherwise, and whose tags belong together. -/
def Form.Tidy : Form → Prop
  | .arrayExpression elements => ∀ node, some node ∈ elements → node.form.standsAlone = true
  | .objectExpression properties => ∀ node ∈ properties, node.isObjectMember = true
  | .spreadElement argument => argument.form.standsAlone = true
  | .assignment left .plain _ => left.isTarget = true
  | .assignment left (.compound _) _ => left.form.standsAlone = true
  | .forInStatement left .. | .forOfStatement left .. => left.form.standsAlone = true
  | .jsxElement opening _ closing? => ∀ closing ∈ closing?, opening.IsClosedBy closing
  | _ => True

/-- Forms that can declare a name in the scope around them, themselves or by a part. -/
def Form.canDeclare : Form → Bool
  | .variableDeclaration .. | .importDeclaration .. | .exportNamed .. | .exportDefault _
  | .function .declaration .. | .classDefinition .declaration .. | .block _ | .ifStatement ..
  | .forStatement .. | .forInStatement .. | .forOfStatement .. | .whileStatement ..
  | .doWhileStatement .. | .switchStatement .. | .switchCase .. | .labeledStatement ..
  | .tryStatement .. | .catchClause .. => true
  | _ => false

/-- What is declared in these parts is not declared around the form. -/
def Form.encloses : Form → Field → Bool
  | .program _, field | .function .., field | .arrowFunction .., field => field == .body
  | _, _ => false

/-- Only forms that can declare, and fields that enclose their declarations, hold what can declare.
-/
def Form.MayHold (form : Form) (field : Field) (node : Node) : Prop :=
  node.form.canDeclare = true → (form.canDeclare || form.encloses field) = true

def Form.Confines (form : Form) : Prop :=
  form.fields.All fun field tree => form.MayHold field tree.node

/-- All forms in a node are tidy and confine what can declare. -/
def Node.Tidy (node : Node) : Prop := node.tree.Everywhere fun form => form.Tidy ∧ form.Confines

theorem Node.tidy_iff (span : Span) (form : Form) :
    Tidy ⟨span, form⟩
      ↔ (form.Tidy ∧ form.Confines) ∧ form.fields.All fun _ tree => tree.node.Tidy :=
  everywhere_iff _ span form

/-! ## Shaped and tidy nodes -/

def Form.isPlain : Form → Bool
  | .variableDeclaration .. | .exportSpecifier .. => false
  | _ => true

def Form.Holds (form : Form) (field : Field) (node : Node) : Prop :=
  form.Part field node ∧ form.MayHold field node ∧ node.Tidy

namespace Node

/-- What can stand where an expression or a target can, and is tidy. -/
def Sound (node : Node) : Prop := node.Operand ∧ node.Tidy ∧ node.form.canDeclare = false

/-- A sound node that stands alone, as expressions do. -/
def Whole (node : Node) : Prop := node.form.standsAlone = true ∧ node.Sound

/-- A tidy pattern whose identifiers are declared. -/
def Target (node : Node) : Prop := node.Binding ∧ node.Tidy

/-- What can stand where an expression or a block can, and is tidy. -/
def Fit (node : Node) : Prop := node.form.standsAlone = true ∧ node.Operand ∧ node.Tidy

/-- A sound node that stands alone, as statements do. -/
def Stands (node : Node) : Prop := node.form.standsAlone = true ∧ node.Statement ∧ node.Tidy

theorem Whole.fit {node : Node} (whole : node.Whole) : node.Fit :=
  ⟨whole.1, whole.2.1, whole.2.2.1⟩

theorem Fit.whole {node : Node} (fit : node.Fit) (closed : node.form.canDeclare = false) :
    node.Whole := ⟨fit.1, fit.2.1, fit.2.2, closed⟩

theorem Fit.stands {node : Node} (fit : node.Fit) : node.Stands :=
  ⟨fit.1, fit.2.1.statement, fit.2.2⟩

theorem Target.sound {node : Node} (target : node.Target) : node.Sound := by
  refine ⟨target.1.operand, target.2, ?_⟩
  have pattern := target.1.2
  obtain ⟨span, form⟩ := node
  cases form <;> first | rfl | simp [isBinding] at pattern

theorem Fit.held {node : Node} (fit : node.Fit) {form : Form} {field : Field}
    (takes : (form.canDeclare || form.encloses field) = true) : form.Holds field node :=
  ⟨fit.2.1.part form field, fun _ => takes, fit.2.2⟩

theorem Sound.held {node : Node} (sound : node.Sound) (form : Form) (field : Field) :
    form.Holds field node :=
  ⟨sound.1.part form field, by simp [Form.MayHold, sound.2.2], sound.2.1⟩

theorem Stands.held {node : Node} (stands : node.Stands) {form : Form} {field : Field}
    (takes : form.takesDeclaration field = true) : form.Holds field node := by
  refine ⟨stands.2.1.part takes, fun _ => ?_, stands.2.2⟩
  cases form <;> first | rfl | exact takes | cases takes

theorem shaped_and_tidy (form : Form) (built : form.WellBuilt) (tidy : form.Tidy)
    (parts : form.fields.All fun field tree => form.Holds field tree.node) (span : Span) :
    Shaped ⟨span, form⟩ ∧ Tidy ⟨span, form⟩ :=
  ⟨(shaped_iff span form).2 ⟨built, fun child member => (parts child member).1⟩,
    (tidy_iff span form).2 ⟨⟨tidy, fun child member => (parts child member).2.1⟩,
      fun child member => (parts child member).2.2⟩⟩

theorem holds_parts {span : Span} {form : Form} (shaped : Shaped ⟨span, form⟩)
    (tidy : Tidy ⟨span, form⟩) : form.fields.All fun field tree => form.Holds field tree.node :=
  fun child member => ⟨((shaped_iff ..).1 shaped).2 child member,
    ((tidy_iff ..).1 tidy).1.2 child member, ((tidy_iff ..).1 tidy).2 child member⟩

/-- The parts of what cannot declare anything cannot either, except for bodies. -/
theorem Sound.parts {span : Span} {form : Form} (sound : Sound ⟨span, form⟩)
    (plain : ∀ field, (form.takesDeclaration field || form.takesSpecifier field
      || form.encloses field) = false) :
    form.fields.All fun _ tree => tree.node.Sound := by
  intro child member
  obtain ⟨part, confined, tidy⟩ := holds_parts sound.1.1 sound.2.1 child member
  have closed : form.canDeclare = false := sound.2.2
  simp only [Bool.or_eq_false_iff] at plain
  refine ⟨operand_of_part part (plain _).1.1 (plain _).1.2, tidy, ?_⟩
  simpa [Form.MayHold, closed, plain] using confined

end Node

namespace Form

def Sound (form : Form) : Prop := ∀ span : Span, Node.Sound ⟨span, form⟩

/-- A sound form that stands alone. -/
def Whole (form : Form) : Prop := ∀ span : Span, Node.Whole ⟨span, form⟩

def Stands (form : Form) : Prop := ∀ span : Span, Node.Stands ⟨span, form⟩

def Fit (form : Form) : Prop := ∀ span : Span, Node.Fit ⟨span, form⟩

section Built

variable {form : Form} (built : form.WellBuilt) (tidy : form.Tidy)

include built tidy

theorem operand_and_tidy_of_held (plain : form.isPlain = true)
    (parts : form.fields.All fun field tree => form.Holds field tree.node) (span : Span) :
    Node.Operand ⟨span, form⟩ ∧ Node.Tidy ⟨span, form⟩ := by
  obtain ⟨shaped, tidy⟩ := Node.shaped_and_tidy form built tidy parts span
  refine ⟨⟨shaped, ?_, ?_⟩, tidy⟩ <;> cases form <;> first | rfl | cases plain

theorem fit_of_held (fit : (form.isPlain && form.standsAlone) = true)
    (parts : form.fields.All fun field tree => form.Holds field tree.node) : form.Fit := by
  intro span
  obtain ⟨plain, alone⟩ := Bool.and_eq_true_iff.1 fit
  exact ⟨alone, operand_and_tidy_of_held built tidy plain parts span⟩

theorem fit_of_parts (fit : (form.isPlain && form.standsAlone) = true)
    (parts : form.fields.All fun _ tree => tree.node.Sound) : form.Fit :=
  fit_of_held built tidy fit fun child member => (parts child member).held ..

theorem sound_of_held (sound : (form.isPlain && !form.canDeclare) = true)
    (parts : form.fields.All fun field tree => form.Holds field tree.node) : form.Sound := by
  intro span
  obtain ⟨plain, closed⟩ := Bool.and_eq_true_iff.1 sound
  obtain ⟨operand, tidy⟩ := operand_and_tidy_of_held built tidy plain parts span
  exact ⟨operand, tidy, Bool.not_eq_true' _ ▸ closed⟩

theorem sound_of_parts (sound : (form.isPlain && !form.canDeclare) = true)
    (parts : form.fields.All fun _ tree => tree.node.Sound) : form.Sound :=
  sound_of_held built tidy sound fun child member => (parts child member).held ..

theorem whole_of_parts (whole : (form.isPlain && !form.canDeclare && form.standsAlone) = true)
    (parts : form.fields.All fun _ tree => tree.node.Sound) : form.Whole := by
  intro span
  obtain ⟨sound, alone⟩ := Bool.and_eq_true_iff.1 whole
  exact ⟨alone, sound_of_parts built tidy sound parts span⟩

end Built

end Form

theorem Ident.target_node (id : Ident) : id.node.Target :=
  ⟨id.binding_node, (Node.tidy_iff ..).2 ⟨⟨trivial, by simp [Form.Confines, Form.fields]⟩,
    by simp [Form.fields]⟩⟩

theorem Ident.sound_node (id : Ident) : id.node.Sound := id.target_node.sound

theorem Ident.whole_node (id : Ident) : id.node.Whole := ⟨rfl, id.sound_node⟩

theorem TagName.sound_node (name : TagName) : name.node.Sound := by
  have sound : ∀ name : TagName, (Form.jsxName name).fields.All (fun _ tree => tree.node.Sound) →
      name.node.Sound := by
    intro name parts
    have sound : (Form.jsxName name).Sound := Form.sound_of_parts trivial trivial rfl parts
    exact sound name.span
  have simple : ∀ id : Ident, (TagName.simple id).node.Sound := fun id =>
    sound _ (Fields.all_of_children_nil (by rw [Form.fields]; rfl))
  induction name with
  | simple id => exact simple id
  | namespaced space name =>
    refine sound _ ?_
    rw [Form.fields]
    exact (Fields.all_append _ _).2 ⟨(Fields.all_one _ _).2 (simple space),
      (Fields.all_one _ _).2 (simple name)⟩
  | member object property ih =>
    refine sound _ ?_
    rw [Form.fields]
    exact (Fields.all_append _ _).2 ⟨(Fields.all_one _ _).2 (by simpa using ih),
      (Fields.all_one _ _).2 (simple property)⟩

end TemplateLint.Syntax
