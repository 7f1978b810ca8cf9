import Mathlib.Data.List.Forall2
import TemplateLint.Proofs.Syntax.Shape

/-!
# Nested spans

A tree is nested if every child lies inside its parent and the children of a node come in the
order of their starts, at every node (`Tree.Nested`). There is one exception: decorators that stand
before an export belong to the exported class, and lie before the class but inside the export.

Nodes that a text is read into lie one behind the other (`Run`), and a node that spans a run of its
parts is nested (`Run.nested_mk`).
-/

namespace TemplateLint.Syntax

open Fields (one optional many sparse text texts flag literal treeOf)

variable {source : List Char} {low high : Nat} {form : Form} (field : Field)

/-! ## Trees -/

namespace Node

def isExport : Node → Bool
  | ⟨_, .exportNamed ..⟩ => true
  | ⟨_, .exportDefault _⟩ => true
  | _ => false

def isClass : Node → Bool
  | ⟨_, .classDefinition ..⟩ => true
  | _ => false

/-- The offset from which the decorators of a child may stand: for what is exported, the start of
the export. -/
def reach (parent : Node) (field : Field) (child : Node) : Nat :=
  if parent.isExport && field == .declaration then parent.start else child.start

end Node

/-- The word `export` stands in a source text between two offsets. -/
def ExportBetween (source : List Char) (low high : Nat) : Prop :=
  ∃ offset, low ≤ offset ∧ offset + "export".length ≤ high ∧ "export".toList <+: source.drop offset

theorem ExportBetween.le (between : ExportBetween source low high) : low ≤ high := by
  obtain ⟨offset, after, before, _⟩ := between
  omega

/-- A child lies inside a node, or it is a decorator that was written before the `export` of the
class that it belongs to. -/
def Node.Covers (source : List Char) (node : Node) (reach : Nat) (field : Field) (child : Node) :
    Prop :=
  node.start ≤ child.start ∧ child.stop ≤ node.stop
    ∨ node.isClass = true ∧ field = .decorators ∧ reach ≤ child.start
      ∧ ExportBetween source child.stop node.start

/-- The spans in a tree of a source text are nested and in order. Decorators of the tree itself may
stand from the given offset on. -/
inductive Tree.Nested (source : List Char) : Nat → Tree → Prop where
  | mk {reach : Nat} {tree : Tree} (ordered : tree.node.start ≤ tree.node.stop)
      (inside : ∀ child ∈ tree.children, tree.node.Covers source reach child.1.field child.2.node)
      (sorted : (tree.children.map (·.2.node)).Pairwise fun former latter =>
        former.start ≤ latter.start)
      (below : ∀ child ∈ tree.children,
        Nested source (tree.node.reach child.1.field child.2.node) child.2) :
      Nested source reach tree

namespace Tree.Nested

variable {source : List Char} {reach : Nat} {tree : Tree}

theorem ordered (nested : tree.Nested source reach) : tree.node.start ≤ tree.node.stop := by
  cases nested with
  | mk ordered _ _ _ => exact ordered

theorem inside (nested : tree.Nested source reach) :
    ∀ child ∈ tree.children, tree.node.Covers source reach child.1.field child.2.node := by
  cases nested with
  | mk _ inside _ _ => exact inside

theorem sorted (nested : tree.Nested source reach) :
    (tree.children.map (·.2.node)).Pairwise fun former latter => former.start ≤ latter.start := by
  cases nested with
  | mk _ _ sorted _ => exact sorted

theorem children (nested : tree.Nested source reach) :
    ∀ child ∈ tree.children, child.2.Nested source (tree.node.reach child.1.field child.2.node) := by
  cases nested with
  | mk _ _ _ below => exact below

theorem mono (nested : tree.Nested source reach) {reach' : Nat} (lower : reach' ≤ reach) :
    tree.Nested source reach' := by
  refine .mk nested.ordered ?_ nested.sorted nested.children
  intro child member
  rcases nested.inside child member with inner | ⟨isClass, field, above, before⟩
  · exact .inl inner
  · exact .inr ⟨isClass, field, Nat.le_trans lower above, before⟩

end Tree.Nested

/-- The nodes below lie inside one another and in order. -/
def Node.Nested (source : List Char) (node : Node) : Prop := node.tree.Nested source node.start

theorem Node.Nested.ordered {source : List Char} {node : Node} (nested : node.Nested source) :
    node.start ≤ node.stop := by
  have ordered := Tree.Nested.ordered nested
  rwa [Node.node_tree] at ordered

/-! ## The nodes in a run of fields -/

namespace Fields

/-- The nodes that fields hold, in order. -/
def nodes (fields : Fields) : List Node := fields.children.map (·.2.node)

@[simp] theorem nodes_append (first second : Fields) :
    (first ++ second).nodes = first.nodes ++ second.nodes := List.map_append

@[simp] theorem nodes_one (tree : Tree) : (one field tree).nodes = [tree.node] := rfl

@[simp] theorem nodes_text (value : String) : (text field value).nodes = [] := rfl

@[simp] theorem nodes_texts (values : List String) :
    (texts field values).nodes = [] := rfl

@[simp] theorem nodes_flag (value : Bool) : (flag field value).nodes = [] := rfl

@[simp] theorem nodes_literal (value : LiteralValue) :
    (literal field value).nodes = [] := rfl

@[simp] theorem nodes_empty : empty.nodes = [] := rfl

@[simp] theorem nodes_absent : (optional field none).nodes = [] := rfl

@[simp] theorem nodes_treeOf? (node? : Option Node) :
    (optional field (treeOf? node?)).nodes = node?.toList := by
  cases node? with
  | none => rfl
  | some node => simp [treeOf?, optional]

@[simp] theorem nodes_ident? (id? : Option Ident) :
    (optional field (id?.map Ident.tree)).nodes = id?.toList.map Ident.node := by
  cases id? <;> rfl

theorem nodes_many (trees : List Tree) :
    (many field trees).nodes = trees.map Tree.node := by
  simp only [nodes, many, List.map_map]
  conv =>
    rhs
    rw [← List.zipIdx_map_fst 0 trees, List.map_map]
  rfl

theorem nodes_sparse (trees : List (Option Tree)) :
    (sparse field trees).nodes = trees.filterMap (Option.map Tree.node) := by
  have numbered : ∀ first, ((trees.zipIdx first).filterMap fun entry =>
      entry.1.map fun tree => ((⟨field, entry.2⟩ : Step), tree)).map (·.2.node)
        = trees.filterMap (Option.map Tree.node) := by
    induction trees with
    | nil => exact fun first => rfl
    | cons tree? rest ih =>
      intro first
      cases tree? with
      | none => exact ih (first + 1)
      | some tree => exact congrArg (tree.node :: ·) (ih (first + 1))
  exact numbered 0

@[simp] theorem nodes_treesOf (nodes : List Node) :
    (many field (treesOf nodes)).nodes = nodes := by
  simp [nodes_many, treesOf_eq_map, Function.comp_def]

@[simp] theorem nodes_treesOf? (nodes : List (Option Node)) :
    (sparse field (treesOf? nodes)).nodes = nodes.filterMap id := by
  rw [nodes_sparse, treesOf?_eq_map, List.filterMap_map]
  congr 1
  funext node?
  cases node? <;> simp

end Fields

/-! ## Runs -/

/-- Nested nodes inside a range of offsets, in the order of their starts. -/
structure Framed (source : List Char) (low high : Nat) (nodes : List Node) : Prop where
  nested : ∀ node ∈ nodes, node.Nested source
  inside : ∀ node ∈ nodes, low ≤ node.start ∧ node.stop ≤ high
  sorted : nodes.Pairwise fun former latter => former.start ≤ latter.start

/-- Nested nodes inside a range of offsets, one behind the other. -/
structure Run (source : List Char) (low high : Nat) (nodes : List Node) : Prop where
  nested : ∀ node ∈ nodes, node.Nested source
  inside : ∀ node ∈ nodes, low ≤ node.start ∧ node.stop ≤ high
  apart : nodes.Pairwise fun former latter => former.stop ≤ latter.start

theorem Node.nested_tree_iff {reach : Nat} {span : Span} :
    (Node.tree ⟨span, form⟩).Nested source reach ↔ span.start ≤ span.stop
      ∧ (form.fields.All fun field tree => Node.Covers source ⟨span, form⟩ reach field tree.node
          ∧ tree.Nested source (Node.reach ⟨span, form⟩ field tree.node))
      ∧ form.fields.nodes.Pairwise fun former latter => former.start ≤ latter.start := by
  have node : (Node.tree ⟨span, form⟩).node = ⟨span, form⟩ := Node.node_tree _
  have children : (Node.tree ⟨span, form⟩).children = form.fields.children := by
    rw [Node.tree]
    rfl
  constructor
  · intro nested
    have inside := nested.inside
    have deeper := nested.children
    have ordered := nested.ordered
    have sorted := nested.sorted
    rw [node] at inside deeper ordered
    rw [children] at inside deeper sorted
    exact ⟨ordered, fun child member => ⟨inside child member, deeper child member⟩, sorted⟩
  · rintro ⟨ordered, all, sorted⟩
    constructor
    · rw [node]
      exact ordered
    · rw [node, children]
      exact fun child member => (all child member).1
    · rw [children]
      exact sorted
    · rw [node, children]
      exact fun child member => (all child member).2

theorem Node.Nested.framed {span : Span}
    (nested : Node.Nested source ⟨span, form⟩) (inner : isExport ⟨span, form⟩ = false) :
    Framed source span.start span.stop form.fields.nodes := by
  obtain ⟨ordered, all, sorted⟩ := Node.nested_tree_iff.1 nested
  refine ⟨fun node member => ?_, fun node member => ?_, sorted⟩
  · obtain ⟨child, listed, rfl⟩ := List.mem_map.1 member
    have deeper := (all child listed).2
    rwa [form.allViews_fields child listed, Node.node_tree, Node.reach, inner] at deeper
  · obtain ⟨child, listed, rfl⟩ := List.mem_map.1 member
    rcases (all child listed).1 with inside | ⟨_, _, after, between⟩
    · exact inside
    · exact ⟨after, Nat.le_trans between.le ordered⟩

theorem Framed.nested_mk (framed : Framed source low high form.fields.nodes)
    (ordered : low ≤ high) : Node.Nested source ⟨⟨low, high⟩, form⟩ := by
  refine Node.nested_tree_iff.2 ⟨ordered, fun child listed => ?_, framed.sorted⟩
  have member : child.2.node ∈ form.fields.nodes := List.mem_map.2 ⟨child, listed, rfl⟩
  have inside := framed.inside _ member
  have deeper := framed.nested _ member
  rw [Node.Nested, ← form.allViews_fields child listed] at deeper
  refine ⟨.inl inside, deeper.mono ?_⟩
  rw [Node.reach]
  split
  · exact inside.1
  · exact Nat.le_refl _

theorem Framed.append {middle : Nat} {nodes more : List Node}
    (framed : Framed source low middle nodes) (framed' : Framed source middle high more)
    (lower : low ≤ middle) (upper : middle ≤ high) : Framed source low high (nodes ++ more) where
  nested node member := by
    rcases List.mem_append.1 member with member | member
    · exact framed.nested node member
    · exact framed'.nested node member
  inside node member := by
    rcases List.mem_append.1 member with member | member
    · exact ⟨(framed.inside node member).1, Nat.le_trans (framed.inside node member).2 upper⟩
    · exact ⟨Nat.le_trans lower (framed'.inside node member).1, (framed'.inside node member).2⟩
  sorted := by
    refine List.pairwise_append.2 ⟨framed.sorted, framed'.sorted, ?_⟩
    intro former first latter second
    have ordered := (framed.nested former first).ordered
    have left := (framed.inside former first).2
    have right := (framed'.inside latter second).1
    omega

namespace Run

variable {source : List Char} {low high : Nat} {nodes : List Node}

theorem nil (source : List Char) (low high : Nat) : Run source low high [] :=
    ⟨by simp, by simp, .nil⟩

theorem single {node : Node} (nested : node.Nested source) (after : low ≤ node.start)
    (before : node.stop ≤ high) : Run source low high [node] where
  nested := by simpa using nested
  inside := by simpa using ⟨after, before⟩
  apart := List.pairwise_singleton ..

theorem within (run : Run source low high nodes) {low' high' : Nat}
    (after : ∀ node ∈ nodes, low' ≤ node.start) (before : ∀ node ∈ nodes, node.stop ≤ high') :
    Run source low' high' nodes :=
  ⟨run.nested, fun node member => ⟨after node member, before node member⟩, run.apart⟩

theorem mono (run : Run source low high nodes) {low' high' : Nat} (lower : low' ≤ low)
    (higher : high ≤ high') : Run source low' high' nodes :=
  run.within (fun node member => Nat.le_trans lower (run.inside node member).1)
    fun node member => Nat.le_trans (run.inside node member).2 higher

theorem append_iff {more : List Node} :
    Run source low high (nodes ++ more) ↔ Run source low high nodes ∧ Run source low high more
      ∧ ∀ former ∈ nodes, ∀ latter ∈ more, former.stop ≤ latter.start := by
  constructor
  · intro run
    obtain ⟨first, second, apart⟩ := List.pairwise_append.1 run.apart
    exact ⟨⟨fun node member => run.nested node (List.mem_append_left _ member),
        fun node member => run.inside node (List.mem_append_left _ member), first⟩,
      ⟨fun node member => run.nested node (List.mem_append_right _ member),
        fun node member => run.inside node (List.mem_append_right _ member), second⟩, apart⟩
  · rintro ⟨first, second, apart⟩
    refine ⟨fun node member => ?_, fun node member => ?_,
      List.pairwise_append.2 ⟨first.apart, second.apart, apart⟩⟩
    · rcases List.mem_append.1 member with member | member
      · exact first.nested node member
      · exact second.nested node member
    · rcases List.mem_append.1 member with member | member
      · exact first.inside node member
      · exact second.inside node member

theorem append (run : Run source low high nodes) {low' high' : Nat} {more : List Node}
    (run' : Run source low' high' more) (after : low ≤ low') (apart : high ≤ low')
    (before : high ≤ high') : Run source low high' (nodes ++ more) := by
  refine append_iff.2 ⟨run.mono (Nat.le_refl _) before, run'.mono after (Nat.le_refl _), ?_⟩
  intro former first latter second
  have left := (run.inside former first).2
  have right := (run'.inside latter second).1
  omega

theorem framed (run : Run source low high nodes) : Framed source low high nodes where
  nested := run.nested
  inside := run.inside
  sorted := by
    apply run.apart.imp_of_mem
    intro former latter first _ apart
    exact Nat.le_trans (run.nested former first).ordered apart

end Run

/-- Wherever the first nodes are a run, the second ones are. -/
def Gathers (parts gathered : List Node) : Prop :=
  ∀ source low high, Run source low high parts → Run source low high gathered

theorem Gathers.within {parts gathered : List Node} (gathers : Gathers parts gathered)
    (before after : List Node) : Gathers (before ++ parts ++ after) (before ++ gathered ++ after) := by
  intro source low high run
  obtain ⟨front, behind, apart⟩ := Run.append_iff.1 run
  obtain ⟨first, middle, joined⟩ := Run.append_iff.1 front
  -- What lies before or behind all parts lies before or behind what is gathered from them.
  have above : ∀ former ∈ before, ∀ node ∈ gathered, former.stop ≤ node.start := by
    intro former member node listed
    have run' : Run source former.stop high parts :=
      middle.within (joined former member) fun part inParts => (middle.inside part inParts).2
    exact ((gathers _ _ _ run').inside node listed).1
  have below : ∀ node ∈ gathered, ∀ latter ∈ after, node.stop ≤ latter.start := by
    intro node listed latter member
    have run' : Run source low latter.start parts :=
      middle.within (fun part inParts => (middle.inside part inParts).1)
        fun part inParts => apart part (List.mem_append_right _ inParts) latter member
    exact ((gathers _ _ _ run').inside node listed).2
  refine Run.append_iff.2 ⟨Run.append_iff.2 ⟨first, gathers source low high middle, above⟩, behind, ?_⟩
  intro former member latter listed
  rcases List.mem_append.1 member with member | member
  · exact apart former (List.mem_append_left _ member) latter listed
  · exact below former member latter listed

/-! ## Nodes that span a run -/

/-- A form around nodes that form a run is nested if it spans the run. -/
def Fits (nodes : List Node) (form : Form) : Prop :=
  ∀ source low high, low ≤ high → Run source low high nodes →
    Node.Nested source ⟨⟨low, high⟩, form⟩

theorem fits_of_gathers {nodes : List Node} (gathers : Gathers nodes form.fields.nodes) :
    Fits nodes form := by
  intro source low high ordered run
  exact (gathers source low high run).framed.nested_mk ordered

theorem fits_parts {nodes : List Node} (parts : form.fields.nodes = nodes) :
    Fits nodes form := by
  apply fits_of_gathers
  intro source low high run
  exact parts ▸ run

theorem Fits.run {nodes : List Node} {form : Form} (fits : Fits nodes form) {source : List Char}
    {low high : Nat} (ordered : low ≤ high) (run : Run source low high nodes) :
    Run source low high [⟨⟨low, high⟩, form⟩] :=
  .single (fits source low high ordered run) (Nat.le_refl _) (Nat.le_refl _)

theorem Fits.gathers {first last : Node} (fits : Fits [first, last] form) :
    Gathers [first, last] [⟨⟨first.start, last.stop⟩, form⟩] := by
  intro source low high run
  have apart : first.stop ≤ last.start := (List.pairwise_cons.1 run.apart).1 last (.head _)
  have left := (run.nested first (.head _)).ordered
  have right := (run.nested last (.tail _ (.head _))).ordered
  have both : Run source first.start last.stop [first, last] := by
    apply run.within
    · rw [List.forall_mem_cons, List.forall_mem_singleton]
      omega
    · rw [List.forall_mem_cons, List.forall_mem_singleton]
      omega
  exact .single (fits _ _ _ (by omega) both) (run.inside first (.head _)).1
    (run.inside last (.tail _ (.head _))).2

theorem Fits.gathers_single {part : Node} (fits : Fits [part] form) :
    Gathers [part] [⟨part.span, form⟩] := by
  intro source low high run
  have nested := run.nested part (.head _)
  have inside := run.inside part (.head _)
  have whole : Run source part.start part.stop [part] :=
    .single nested (Nat.le_refl _) (Nat.le_refl _)
  exact .single (fits _ _ _ nested.ordered whole) inside.1 inside.2

/-- Nodes between two offsets, as one node: stands for several nodes that are read together. -/
def bundle (low high : Nat) (nodes : List Node) : Node := ⟨⟨low, high⟩, .sequence nodes⟩

theorem fits_bundle (nodes : List Node) : Fits nodes (.sequence nodes) :=
  fits_parts (by simp [Form.fields])

theorem Run.framed_bundle {start stop : Nat} {before nodes after : List Node}
    (run : Run source low high (before ++ [bundle start stop nodes] ++ after)) :
    Framed source low high (before ++ nodes ++ after) := by
  obtain ⟨front, behind, apart⟩ := Run.append_iff.1 run
  obtain ⟨first, middle, joined⟩ := Run.append_iff.1 front
  have nested := middle.nested _ (.head _)
  have outer := middle.inside _ (.head _)
  have inner : Framed source start stop nodes := by
    simpa [Form.fields] using nested.framed rfl
  have left : Run source low start before :=
    first.within (fun node member => (first.inside node member).1)
      fun node member => joined node member _ (.head _)
  have right : Run source stop high after :=
    behind.within (fun node member => apart _ (List.mem_append_right _ (.head _)) node member)
      fun node member => (behind.inside node member).2
  have ordered : start ≤ stop := nested.ordered
  exact (left.framed.append inner outer.1 ordered).append right.framed
    (Nat.le_trans outer.1 ordered) outer.2

/-! ## Replacing nodes -/

/-- A node may stand in the place of another one: it has the same span and is nested if the other
one is. -/
structure Replaces (old new : Node) : Prop where
  span : new.span = old.span
  nested : ∀ source, old.Nested source → new.Nested source

theorem Replaces.refl (node : Node) : Replaces node node := ⟨rfl, fun _ => id⟩

theorem map_span_of_replaces {old new : List Node} (replaced : List.Forall₂ Replaces old new) :
    new.map Node.span = old.map Node.span := by
  induction replaced with
  | nil => rfl
  | cons first _ ih => rw [List.map_cons, List.map_cons, first.span, ih]

theorem nested_of_replaces {old new : List Node} (replaced : List.Forall₂ Replaces old new)
    (nested : ∀ node ∈ old, node.Nested source) : ∀ node ∈ new, node.Nested source := by
  induction replaced with
  | nil => exact nested
  | cons first _ ih =>
    rw [List.forall_mem_cons] at nested ⊢
    exact ⟨first.nested source nested.1, ih nested.2⟩

theorem Framed.replace {old new : List Node} (framed : Framed source low high old)
    (replaced : List.Forall₂ Replaces old new) : Framed source low high new where
  nested := nested_of_replaces replaced framed.nested
  inside := by
    have inside : ∀ span ∈ old.map Node.span, low ≤ span.start ∧ span.stop ≤ high :=
      List.forall_mem_map.2 framed.inside
    rw [← map_span_of_replaces replaced] at inside
    exact List.forall_mem_map.1 inside
  sorted := by
    have sorted : (old.map Node.span).Pairwise fun former latter => former.start ≤ latter.start :=
      List.pairwise_map.2 framed.sorted
    rw [← map_span_of_replaces replaced, List.pairwise_map] at sorted
    exact sorted

theorem replaces_form {span : Span} {form' : Form} (inner : Node.isExport ⟨span, form⟩ = false)
    (parts : List.Forall₂ Replaces form.fields.nodes form'.fields.nodes) :
    Replaces ⟨span, form⟩ ⟨span, form'⟩ where
  span := rfl
  nested _ nested := ((nested.framed inner).replace parts).nested_mk nested.ordered

/-! ## Places -/

/-- A child of the class at a place is a decorator that was written before the `export` of the
class. -/
structure IsMovedDecorator (source : List Char) (root : Tree) (place : Path) (child : Step × Tree) :
    Prop where
  decorator : child.1.field = .decorators
  exported : ∃ step above definition export_, place = step :: above ∧ step.field = .declaration
    ∧ root.nodeAt? place = some definition ∧ definition.isClass = true
    ∧ root.nodeAt? above = some export_ ∧ export_.isExport = true
    ∧ export_.start ≤ child.2.node.start
    ∧ ExportBetween source child.2.node.stop definition.start

namespace Tree.Nested

variable {source : List Char} {root : Tree}

theorem at? (view : root.IsView) (nested : root.Nested source root.node.start) {place : Path}
    {tree : Tree} (found : root.at? place = some tree) :
    tree.node.stop ≤ root.node.stop ∧ ∃ reach, tree.Nested source reach
      ∧ (reach = tree.node.start ∨ ∃ step above export_, place = step :: above
        ∧ step.field = .declaration ∧ root.nodeAt? above = some export_ ∧ export_.isExport = true
        ∧ reach = export_.start) := by
  induction place generalizing tree with
  | nil =>
    cases found
    exact ⟨Nat.le_refl _, _, nested, .inl rfl⟩
  | cons step above ih =>
    obtain ⟨parent, foundParent, child⟩ := Option.bind_eq_some_iff.1 found
    have listed := (child?_eq_some_iff (isView_at? view foundParent) step tree).1 child
    obtain ⟨inside, reach, nestedParent, _⟩ := ih foundParent
    constructor
    · have ordered := nestedParent.ordered
      rcases nestedParent.inside _ listed with within | ⟨_, _, _, between⟩
      · exact Nat.le_trans within.2 inside
      · exact Nat.le_trans between.le (Nat.le_trans ordered inside)
    · refine ⟨_, nestedParent.children _ listed, ?_⟩
      rw [Node.reach]
      split
      · rename_i exported
        obtain ⟨isExport, field⟩ := Bool.and_eq_true_iff.1 exported
        refine .inr ⟨step, above, parent.node, rfl, beq_iff_eq.1 field, ?_, isExport, rfl⟩
        rw [nodeAt?, foundParent]
        rfl
      · exact .inl rfl

/-- **Spans in a nested tree.** At every place the span is in order and inside that of the root,
the children lie inside, apart from decorators before an export, and come in order. -/
theorem spans (view : root.IsView) (nested : root.Nested source root.node.start) {place : Path}
    {tree : Tree} (listed : (place, tree) ∈ root.places) :
    tree.node.start ≤ tree.node.stop ∧ tree.node.stop ≤ root.node.stop
      ∧ (∀ child ∈ tree.children,
          (tree.node.start ≤ child.2.node.start ∧ child.2.node.stop ≤ tree.node.stop)
            ∨ IsMovedDecorator source root place child)
      ∧ (tree.children.map (·.2.node.start)).Pairwise (· ≤ ·) := by
  have found := (mem_places_iff view place tree).1 listed
  obtain ⟨below, reach, here, origin⟩ := nested.at? view found
  refine ⟨here.ordered, below, fun child member => ?_, ?_⟩
  · rcases here.inside child member with within | ⟨isClass, field, after, between⟩
    · exact .inl within
    · rcases origin with rfl | ⟨step, above, export_, rfl, declaration, exporting, isExport, rfl⟩
      · exact .inl ⟨after, Nat.le_trans between.le here.ordered⟩
      · refine .inr ⟨field, step, above, tree.node, export_, rfl, declaration, ?_, isClass, exporting,
          isExport, after, between⟩
        rw [nodeAt?, found]
        rfl
  · have sorted := here.sorted
    rw [List.pairwise_map] at sorted ⊢
    exact sorted

end Tree.Nested

end TemplateLint.Syntax
