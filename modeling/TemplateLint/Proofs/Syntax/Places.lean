import Mathlib.Data.List.Induction
import TemplateLint.Proofs.Syntax.View

/-!
# Places

No two children of a node are reached by the same step (`Form.nodup_steps`), a place can be
followed from the root as well as from its end (`Tree.at?_concat`), and the walk through a tree
meets exactly its places (`Tree.mem_places_iff`).
-/

namespace TemplateLint.Syntax

open Fields (one optional many sparse text texts flag literal treeOf)

variable {tree root : Tree} {place : Path} {node : Node} (field : Field)

/-! ## Steps -/

namespace Fields

/-- The children stand in the fields of the layout, no two of them at one step. -/
structure Proper (fields : Fields) : Prop where
  listed : ∀ child ∈ fields.children, child.1.field ∈ fields.layout.map Prod.fst
  distinct : (fields.layout.map Prod.fst).Nodup → (fields.children.map Prod.fst).Nodup

theorem proper_append {first second : Fields} (left : first.Proper) (right : second.Proper) :
    (first ++ second).Proper where
  listed := by
    intro child member
    have layout : (first ++ second).layout = first.layout ++ second.layout := rfl
    rw [layout, List.map_append, List.mem_append]
    rcases List.mem_append.1 member with member | member
    · exact .inl (left.listed child member)
    · exact .inr (right.listed child member)
  distinct := by
    intro layout
    have parts : (first.layout.map Prod.fst ++ second.layout.map Prod.fst).Nodup := by
      rw [← List.map_append]
      exact layout
    obtain ⟨inFirst, inSecond, apart⟩ := List.nodup_append.1 parts
    have children : (first ++ second).children = first.children ++ second.children := rfl
    rw [children, List.map_append, List.nodup_append]
    refine ⟨left.distinct inFirst, right.distinct inSecond, ?_⟩
    intro step inLeft other inRight same
    obtain ⟨child, member, rfl⟩ := List.mem_map.1 inLeft
    obtain ⟨child', member', rfl⟩ := List.mem_map.1 inRight
    exact apart _ (left.listed child member) _ (right.listed child' member') (congrArg Step.field same)

theorem proper_of_children_nil {fields : Fields} (none : fields.children = []) :
    fields.Proper where
  listed := by
    intro child member
    rw [none] at member
    cases member
  distinct := by
    intro _
    rw [none]
    exact List.nodup_nil

@[simp] theorem proper_one (tree : Tree) : (one field tree).Proper where
  listed := by simp [one]
  distinct := by simp [one]

@[simp] theorem proper_optional (tree? : Option Tree) :
    (optional field tree?).Proper := by
  cases tree? with
  | none => exact proper_of_children_nil rfl
  | some tree => exact proper_one field tree

theorem proper_numbered {fields : Fields} {field : Field} {content : Content}
    (layout : fields.layout = [(field, content)])
    (ordered : fields.children.Pairwise fun a b => a.1.index < b.1.index)
    (inField : ∀ child ∈ fields.children, child.1.field = field) : fields.Proper where
  listed := by
    intro child member
    rw [layout, inField child member]
    exact List.mem_singleton.2 rfl
  distinct := by
    intro _
    refine List.pairwise_map.2 (ordered.imp fun before same => ?_)
    rw [same] at before
    exact Nat.lt_irrefl _ before

theorem zipIdx_ordered {α : Type} (items : List α) (first : Nat) :
    (items.zipIdx first).Pairwise fun a b => a.2 < b.2 := by
  induction items generalizing first with
  | nil => exact .nil
  | cons item rest ih =>
    refine .cons (fun later member => ?_) (ih (first + 1))
    have := List.le_snd_of_mem_zipIdx member
    omega

@[simp] theorem proper_many (trees : List Tree) : (many field trees).Proper := by
  refine proper_numbered rfl ?_ ?_
  · exact List.pairwise_map.2 (zipIdx_ordered trees 0)
  · intro child member
    obtain ⟨_, _, rfl⟩ := List.mem_map.1 member
    rfl

@[simp] theorem proper_sparse (trees : List (Option Tree)) :
    (sparse field trees).Proper := by
  refine proper_numbered rfl ?_ ?_
  · refine List.pairwise_filterMap.2 ((zipIdx_ordered trees 0).imp ?_)
    rintro ⟨tree?, index⟩ ⟨tree?', index'⟩ before child present child' present'
    obtain ⟨tree, rfl, rfl⟩ := Option.map_eq_some_iff.1 present
    obtain ⟨tree', rfl, rfl⟩ := Option.map_eq_some_iff.1 present'
    exact before
  · intro child member
    obtain ⟨_, _, present⟩ := List.mem_filterMap.1 member
    obtain ⟨_, _, rfl⟩ := Option.map_eq_some_iff.1 present
    rfl

@[simp] theorem proper_empty : empty.Proper := proper_of_children_nil rfl

@[simp] theorem proper_text (value : String) : (text field value).Proper :=
  proper_of_children_nil rfl

@[simp] theorem proper_texts (values : List String) :
    (texts field values).Proper := proper_of_children_nil rfl

@[simp] theorem proper_flag (value : Bool) : (flag field value).Proper :=
  proper_of_children_nil rfl

@[simp] theorem proper_literal (value : LiteralValue) :
    (literal field value).Proper := proper_of_children_nil rfl

end Fields

theorem TagName.proper_children (name : TagName) :
    (Fields.mk name.tree.layout name.tree.children).Proper := by
  cases name with
  | simple id => exact Fields.proper_of_children_nil rfl
  | namespaced space name | member object property =>
    exact Fields.proper_append (Fields.proper_one _ _) (Fields.proper_one _ _)

theorem Form.proper_fields (form : Form) : form.fields.Proper := by
  cases form with
  | jsxName name =>
    rw [Form.fields]
    exact name.proper_children
  | _ =>
    rw [Form.fields]
    repeat' apply Fields.proper_append
    all_goals simp

namespace Fields

@[simp] theorem layout_append (first second : Fields) :
    (first ++ second).layout = first.layout ++ second.layout := rfl

@[simp] theorem layout_optional (tree? : Option Tree) :
    (optional field tree?).layout.map Prod.fst = [field] := by
  cases tree? <;> rfl

end Fields

theorem Form.nodup_fields (form : Form) : (form.fields.layout.map Prod.fst).Nodup := by
  cases form with
  | jsxName name =>
    rw [Form.fields]
    cases name with
    | simple id => simp [TagName.tree, treeOf, Tree.layout, text]
    | namespaced space name | member object property =>
      simp [TagName.tree, treeOf, Tree.layout, one]
  | _ =>
    simp [Form.fields, one, many, sparse, text, texts, flag, Fields.literal, Fields.empty]

/-- No two children of a node stand at one step. -/
theorem Form.nodup_steps (form : Form) : (form.fields.children.map Prod.fst).Nodup :=
  form.proper_fields.distinct form.nodup_fields

theorem Tree.nodup_steps {tree : Tree} (view : tree.IsView) :
    (tree.children.map Prod.fst).Nodup := by
  rw [view]
  cases tree.node with
  | mk span form => exact form.nodup_steps

theorem Tree.child?_eq_some_iff (view : tree.IsView) (step : Step) (child : Tree) :
    tree.child? step = some child ↔ (step, child) ∈ tree.children := by
  have distinct := Tree.nodup_steps view
  rw [Tree.child?]
  revert distinct
  induction tree.children with
  | nil => simp
  | cons first rest ih =>
    intro distinct
    obtain ⟨other, below⟩ := first
    obtain ⟨fresh, distinct⟩ := List.nodup_cons.1 distinct
    by_cases same : step = other
    · subst same
      rw [List.lookup_cons_self, Option.some.injEq, List.mem_cons, Prod.mk.injEq]
      constructor
      · rintro rfl
        exact .inl ⟨rfl, rfl⟩
      · rintro (⟨_, rfl⟩ | member)
        · rfl
        · exact absurd (List.mem_map.2 ⟨_, member, rfl⟩) fresh
    · rw [List.lookup_cons, beq_eq_false_iff_ne.2 same]
      simp [ih distinct, same]

/-! ## Places from the root -/

namespace Tree

theorem at?_concat (tree : Tree) (rest : Path) (step : Step) :
    tree.at? (rest ++ [step]) = (tree.child? step).bind (·.at? rest) := by
  induction rest with
  | nil => simp [at?]
  | cons last rest ih =>
    rw [List.cons_append, at?, ih, Option.bind_assoc]
    rfl

theorem isView_at? (view : root.IsView) (found : root.at? place = some tree) : tree.IsView := by
  induction place generalizing tree with
  | nil =>
    cases found
    exact view
  | cons step parent ih =>
    obtain ⟨above, foundAbove, below⟩ := Option.bind_eq_some_iff.1 found
    have viewAbove := ih foundAbove
    exact isView_child viewAbove _ ((child?_eq_some_iff viewAbove step tree).1 below)

theorem at?_of_nodeAt? (view : root.IsView) (found : root.nodeAt? place = some node) :
    root.at? place = some node.tree := by
  obtain ⟨tree, foundTree, rfl⟩ := Option.map_eq_some_iff.1 found
  rw [foundTree, ← isView_at? view foundTree]

theorem nodeAt?_cons (view : root.IsView) (found : root.nodeAt? place = some node) {step : Step}
    {child : Tree} (listed : (step, child) ∈ node.tree.children) :
    root.nodeAt? (step :: place) = some child.node := by
  have below := (child?_eq_some_iff node.isView_tree step child).2 listed
  rw [nodeAt?, at?, at?_of_nodeAt? view found, Option.bind_some, below]
  rfl

theorem exists_form_of_nodeAt? (view : root.IsView) {step : Step} {parent : Path}
    (found : root.nodeAt? (step :: parent) = some node) :
    ∃ (span : Span) (form : Form), root.nodeAt? parent = some ⟨span, form⟩
      ∧ ∃ child, (step, child) ∈ form.fields.children ∧ child.node = node := by
  obtain ⟨child, path, rfl⟩ := Option.map_eq_some_iff.1 found
  obtain ⟨tree, foundTree, below⟩ := Option.bind_eq_some_iff.1 path
  have viewTree := isView_at? view foundTree
  have listed := (child?_eq_some_iff viewTree step child).1 below
  rw [viewTree] at listed
  cases node : tree.node with
  | mk span form =>
    rw [node, Node.tree] at listed
    refine ⟨span, form, ?_, child, listed, rfl⟩
    rw [Tree.nodeAt?, foundTree, Option.map_some, node]

/-! ## The walk -/

theorem mem_walkList {here : Path} {children : List (Step × Tree)} {entry : Path × Tree} :
    entry ∈ walkList here children
      ↔ ∃ child ∈ children, entry ∈ walk (child.1 :: here) child.2 := by
  induction children with
  | nil => simp [walkList]
  | cons child rest ih =>
    obtain ⟨step, tree⟩ := child
    simp [walkList, ih]

theorem mem_walk_iff : ∀ tree : Tree, tree.IsView → ∀ (here place : Path) (below : Tree),
    (place, below) ∈ tree.walk here
      ↔ ∃ rest, place = rest ++ here ∧ tree.at? rest = some below := by
  refine Tree.view_induction fun span form parts => ?_
  intro here place below
  have view := Node.isView_tree ⟨span, form⟩
  cases whole : Node.tree ⟨span, form⟩ with
  | mk node layout children =>
    rw [whole] at parts view
    rw [walk, List.mem_cons, mem_walkList]
    constructor
    · rintro (top | ⟨⟨step, child⟩, listed, inside⟩)
      · obtain ⟨rfl, rfl⟩ := Prod.mk.inj top
        exact ⟨[], rfl, rfl⟩
      · obtain ⟨rest, rfl, found⟩ := (parts _ listed _ _ _).1 inside
        refine ⟨rest ++ [step], by simp, ?_⟩
        rw [at?_concat, (child?_eq_some_iff view step child).2 listed]
        exact found
    · rintro ⟨rest, rfl, found⟩
      cases rest using List.reverseRecOn with
      | nil =>
        obtain rfl := Option.some.inj found
        exact .inl rfl
      | append_singleton rest step =>
        rw [at?_concat] at found
        obtain ⟨child, foundChild, inside⟩ := Option.bind_eq_some_iff.1 found
        have listed := (child?_eq_some_iff view step child).1 foundChild
        exact .inr ⟨_, listed, (parts _ listed _ _ _).2 ⟨rest, by simp, inside⟩⟩

/-- The places that are listed are those at which something is found. -/
theorem mem_places_iff (view : tree.IsView) (place : Path) (below : Tree) :
    (place, below) ∈ tree.places ↔ tree.at? place = some below := by
  rw [places, mem_walk_iff tree view]
  simp

/-! ## What holds everywhere -/

/-- The statement holds of the forms of all nodes of a tree. -/
inductive Everywhere (holds : Form → Prop) : Tree → Prop where
  | mk {tree : Tree} (here : holds tree.node.form)
      (below : ∀ child ∈ tree.children, Everywhere holds child.2) : Everywhere holds tree

theorem Everywhere.here {holds : Form → Prop} {tree : Tree} (all : tree.Everywhere holds) :
    holds tree.node.form := by
  cases all with
  | mk here _ => exact here

theorem Everywhere.child {holds : Form → Prop} {tree : Tree} (all : tree.Everywhere holds) :
    ∀ child ∈ tree.children, child.2.Everywhere holds := by
  cases all with
  | mk _ below => exact below

theorem Everywhere.at? {holds : Form → Prop} (view : root.IsView) (all : root.Everywhere holds)
    (found : root.at? place = some tree) : tree.Everywhere holds := by
  induction place generalizing tree with
  | nil =>
    cases found
    exact all
  | cons step parent ih =>
    obtain ⟨above, foundAbove, below⟩ := Option.bind_eq_some_iff.1 found
    exact (ih foundAbove).child _
      ((child?_eq_some_iff (isView_at? view foundAbove) step tree).1 below)

theorem Everywhere.nodeAt? {holds : Form → Prop} (view : root.IsView) (all : root.Everywhere holds)
    (found : root.nodeAt? place = some node) : holds node.form := by
  obtain ⟨tree, foundTree, rfl⟩ := Option.map_eq_some_iff.1 found
  exact (all.at? view foundTree).here

end Tree

end TemplateLint.Syntax
