import TemplateLint.Syntax.Tree

/-!
# Views of nodes

Every tree that the generic view reaches from a node is itself the view of a node, namely
of the one it holds (`isView_child`). So a statement about all trees of the view follows by
induction over children (`Tree.view_induction`), with the form of each node at hand.
-/

namespace TemplateLint.Syntax

open Fields (one optional many sparse text texts flag literal treeOf)

variable (field : Field)

/-- A tree that is the view of its own node. -/
def Tree.IsView (tree : Tree) : Prop := tree = tree.node.tree

@[simp] theorem Node.node_tree (node : Node) : node.tree.node = node := by
  cases node
  simp only [Node.tree, treeOf, Tree.node]

theorem Node.isView_tree (node : Node) : node.tree.IsView := by
  rw [Tree.IsView, Node.node_tree]

theorem TagName.isView_tree (name : TagName) : name.tree.IsView := by
  cases name <;>
    simp only [Tree.IsView, TagName.tree, TagName.node, Node.tree, Form.fields, treeOf, Tree.node,
      Tree.layout, Tree.children]

theorem Ident.isView_tree (id : Ident) : id.tree.IsView := by
  simp only [Tree.IsView, Ident.tree, Ident.node, Node.tree, Form.fields, treeOf, Tree.node]

/-! ## Children -/

theorem treeOf?_eq_map (node? : Option Node) : treeOf? node? = node?.map Node.tree := by
  cases node? <;> rfl

theorem treesOf_eq_map (nodes : List Node) : treesOf nodes = nodes.map Node.tree := by
  induction nodes with
  | nil => rfl
  | cons node rest ih => rw [treesOf, ih, List.map_cons]

theorem treesOf?_eq_map (nodes : List (Option Node)) :
    treesOf? nodes = nodes.map (Option.map Node.tree) := by
  induction nodes with
  | nil => rfl
  | cons node? rest ih => cases node? <;> simp [treesOf?, ih]

namespace Fields

theorem children_treesOf (nodes : List Node) : (many field (treesOf nodes)).children
    = nodes.zipIdx.map fun entry => (⟨field, entry.2⟩, entry.1.tree) := by
  simp [many, treesOf_eq_map, List.zipIdx_map]

/-- The statement holds of all children and their fields. -/
def All (holds : Field → Tree → Prop) (fields : Fields) : Prop :=
  ∀ child ∈ fields.children, holds child.1.field child.2

variable {holds : Field → Tree → Prop}

@[simp] theorem all_append (first second : Fields) :
    (first ++ second).All holds ↔ first.All holds ∧ second.All holds := by
  constructor
  · intro both
    exact ⟨fun child member => both child (List.mem_append.2 (.inl member)),
      fun child member => both child (List.mem_append.2 (.inr member))⟩
  · rintro ⟨left, right⟩ child member
    rcases List.mem_append.1 member with member | member
    · exact left child member
    · exact right child member

theorem all_of_children_nil {fields : Fields} (none : fields.children = []) :
    fields.All holds := by
  intro child member
  rw [none] at member
  cases member

@[simp] theorem all_empty : empty.All holds := all_of_children_nil rfl

@[simp] theorem all_text (value : String) : (text field value).All holds :=
  all_of_children_nil rfl

@[simp] theorem all_texts (values : List String) :
    (texts field values).All holds := all_of_children_nil rfl

@[simp] theorem all_flag (value : Bool) : (flag field value).All holds :=
  all_of_children_nil rfl

@[simp] theorem all_literal (value : LiteralValue) :
    (literal field value).All holds := all_of_children_nil rfl

@[simp] theorem all_one (tree : Tree) :
    (one field tree).All holds ↔ holds field tree := by
  simp [All, one]

theorem all_optional (tree? : Option Tree) :
    (optional field tree?).All holds ↔ ∀ tree ∈ tree?, holds field tree := by
  cases tree? <;> simp [All, optional, one]

theorem all_many (trees : List Tree) :
    (many field trees).All holds ↔ ∀ tree ∈ trees, holds field tree := by
  constructor
  · intro all tree member
    obtain ⟨index, found⟩ := List.mem_iff_getElem?.1 member
    exact all (⟨field, index⟩, tree)
      (List.mem_map.2 ⟨(tree, index), List.mem_zipIdx_iff_getElem?.2 found, rfl⟩)
  · intro all child member
    obtain ⟨⟨tree, index⟩, found, rfl⟩ := List.mem_map.1 member
    exact all tree (List.fst_mem_of_mem_zipIdx found)

theorem all_sparse (trees : List (Option Tree)) :
    (sparse field trees).All holds ↔ ∀ tree, some tree ∈ trees → holds field tree := by
  constructor
  · intro all tree member
    obtain ⟨index, found⟩ := List.mem_iff_getElem?.1 member
    exact all (⟨field, index⟩, tree)
      (List.mem_filterMap.2 ⟨(some tree, index), List.mem_zipIdx_iff_getElem?.2 found, rfl⟩)
  · intro all child member
    obtain ⟨⟨tree?, index⟩, found, present⟩ := List.mem_filterMap.1 member
    obtain ⟨tree, rfl, rfl⟩ := Option.map_eq_some_iff.1 present
    exact all tree (List.fst_mem_of_mem_zipIdx found)

@[simp] theorem all_treeOf? (node? : Option Node) :
    (optional field (treeOf? node?)).All holds ↔ ∀ node ∈ node?, holds field node.tree := by
  cases node? <;> simp [all_optional, treeOf?]

@[simp] theorem all_ident? (id? : Option Ident) :
    (optional field (id?.map Ident.tree)).All holds ↔ ∀ id ∈ id?, holds field id.tree := by
  cases id? <;> simp [all_optional]

@[simp] theorem all_treesOf (nodes : List Node) :
    (many field (treesOf nodes)).All holds ↔ ∀ node ∈ nodes, holds field node.tree := by
  rw [all_many, treesOf_eq_map, List.forall_mem_map]

@[simp] theorem all_treesOf? (nodes : List (Option Node)) :
    (sparse field (treesOf? nodes)).All holds
      ↔ ∀ node, some node ∈ nodes → holds field node.tree := by
  rw [all_sparse]
  induction nodes with
  | nil => simp [treesOf?]
  | cons node? rest ih => cases node? <;> simp [treesOf?, ih]

end Fields

theorem TagName.all_children {holds : Field → Tree → Prop} (name : TagName)
    (each : ∀ field, ∀ part : TagName, holds field part.tree) :
    (Fields.mk name.tree.layout name.tree.children).All holds := by
  cases name with
  | simple id => exact Fields.all_of_children_nil rfl
  | namespaced space name =>
    exact (Fields.all_append _ _).2 ⟨(Fields.all_one _ _).2 (each _ (.simple space)),
      (Fields.all_one _ _).2 (each _ (.simple name))⟩
  | member object property =>
    exact (Fields.all_append _ _).2 ⟨(Fields.all_one _ _).2 (each _ object),
      (Fields.all_one _ _).2 (each _ (.simple property))⟩

theorem Form.allViews_fields (form : Form) : form.fields.All fun _ tree => tree.IsView := by
  cases form with
  | jsxName name =>
    simp only [Form.fields]
    exact name.all_children fun _ part => part.isView_tree
  | _ => simp [Form.fields, Node.isView_tree, Ident.isView_tree, TagName.isView_tree]

theorem isView_child {tree : Tree} (view : tree.IsView) :
    ∀ child ∈ tree.children, child.2.IsView := by
  rw [view]
  cases tree.node with
  | mk span form => exact form.allViews_fields

theorem Tree.sizeOf_child {node : Node} {layout : List (Field × Content)}
    {children : List (Step × Tree)} {child : Step × Tree} (member : child ∈ children) :
    sizeOf child.2 < sizeOf (Tree.mk node layout children) := by
  have inList := List.sizeOf_lt_of_mem member
  have inPair : sizeOf child.2 < sizeOf child := by
    cases child
    simp only [Prod.mk.sizeOf_spec]
    omega
  simp only [Tree.mk.sizeOf_spec]
  omega

theorem Tree.children_induction {motive : Tree → Prop}
    (step : ∀ node layout children, (∀ step tree, (step, tree) ∈ children → motive tree) →
      motive (.mk node layout children)) : ∀ tree : Tree, motive tree
  | .mk node layout children => step node layout children fun _ tree _ =>
    Tree.children_induction step tree
  termination_by tree => sizeOf tree
  decreasing_by exact Tree.sizeOf_child ‹_›

/-- Induction over the nodes of a tree, from the parts to the whole. -/
theorem Tree.view_induction {motive : Tree → Prop}
    (step : ∀ span form, (∀ child ∈ (Node.tree ⟨span, form⟩).children, motive child.2) →
      motive (Node.tree ⟨span, form⟩)) (tree : Tree) (view : tree.IsView) : motive tree := by
  induction tree using Tree.children_induction with
  | step node layout children ih =>
    obtain ⟨span, form⟩ := node
    have below : ∀ child ∈ Tree.children (.mk ⟨span, form⟩ layout children), motive child.2 :=
      fun child member => ih child.1 child.2 member (isView_child view child member)
    rw [view] at below ⊢
    exact step span form below

end TemplateLint.Syntax
