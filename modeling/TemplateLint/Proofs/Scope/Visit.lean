import Mathlib.Algebra.Order.Group.Multiset
import Mathlib.Data.List.Induction
import TemplateLint.Proofs.Syntax.Shape
import TemplateLint.Scope.Event

/-!
# What the analysis visits

The scope events of a node go through its parts, each in a mode that depends on the form of
the node and on the field of the part. `Visit.part` states these rules in one table. Followed down
the generic view, the table says which references a tree has (`treeReferences`), and **they are the
references among the scope events of the node** (`references_scopeEvents`).
-/

namespace TemplateLint.Scope

open TemplateLint.Syntax
open TemplateLint.Syntax.Fields (one optional many sparse text texts flag literal treeOf)

variable (field : Field)

/-- How a part of a program is met. -/
inductive Visit where
  | skipped
  | visited (mode : Mode)
  /-- A specifier of an export from the module itself. -/
  | exported
  deriving DecidableEq, Repr

def Visit.evaluatedIf (condition : Bool) : Visit :=
  if condition then .visited .evaluate else .skipped

/-- A form that means nothing to a declaration. -/
def Mode.omits (mode : Mode) (form : Form) : Bool :=
  (mode matches .declare ..) && !isPatternPart form

/-- How the parts of a node are visited if the node is visited in a mode. -/
def Mode.part (mode : Mode) (form : Form) (field : Field) : Visit :=
  match form with
  | .arrayPattern _ | .objectPattern _ | .restElement _ => .visited mode.inner
  | .assignmentPattern .. =>
    if field = .left then .visited mode.inner else .visited .evaluate
  | .property _ _ _ computed =>
    if field = .key then .evaluatedIf computed else .visited mode.inner
  | .variableDeclarator _ init =>
    if field = .id then .visited (mode.withValue init.isSome) else .visited .evaluate
  | .variableDeclaration _ kind => .visited (mode.declarators kind)
  | .assignment _ operator _ =>
    if field = .left then .visited (.assign (if operator == .plain then .write else .readWrite))
    else .visited .evaluate
  | .update _ argument _ =>
    .visited (if argument.identifier?.isSome then .assign .readWrite else .evaluate)
  | .exportNamed declaration _ source =>
    if field = .declaration then .visited .evaluate
    else if field = .specifiers then
      if declaration.isNone && source.isNone then .exported else .skipped
    else .skipped
  | .function .. =>
    if field = .id then .skipped
    else if field = .params then .visited (.declare .param false false)
    else .visited .evaluate
  | .arrowFunction .. =>
    if field = .params then .visited (.declare .param false false) else .visited .evaluate
  | .classDefinition .. => if field = .id then .skipped else .visited .evaluate
  | .methodDefinition _ _ _ _ _ computed | .classProperty _ _ _ _ computed =>
    if field = .key then .evaluatedIf computed else .visited .evaluate
  | .forInStatement .. | .forOfStatement .. =>
    if field = .left then .visited (.assign .write) else .visited .evaluate
  | .catchClause .. =>
    if field = .param then .visited (.declare .caught false false) else .visited .evaluate
  | .member _ _ computed =>
    if field = .property then .evaluatedIf computed else .visited .evaluate
  | .labeledStatement .. => if field = .label then .skipped else .visited .evaluate
  | .jsxElement .. => if field = .closingElement then .skipped else .visited .evaluate
  | .jsxOpening .. | .jsxAttribute .. => if field = .name then .skipped else .visited .evaluate
  | .importDeclaration .. | .importSpecifier .. | .importDefault _ | .importNamespace _
  | .exportSpecifier .. | .exportAll _ | .breakStatement _ | .continueStatement _ | .jsxName _
  | .jsxClosing _ => .skipped
  | _ => .visited .evaluate

namespace Visit

/-- How the part in a field of a form is met, by how the form itself is. Only the parts of a
pattern are met in a declaration. -/
def part (visit : Visit) (form : Form) (field : Field) : Visit :=
  match visit with
  | .skipped => .skipped
  | .visited mode => if mode.omits form then .skipped else mode.part form field
  | .exported =>
    match form with
    | .exportSpecifier .. => if field = .binding then .visited .evaluate else .skipped
    | _ => .skipped

/-- What an identifier that is met does with its variable. -/
def access? : Visit → Option Access
  | .visited .evaluate => some .read
  | .visited (.assign access) => some access
  | .visited (.declare _ _ true) => some .initialWrite
  | _ => none

/-- The reference that an identifier is, visited in a mode. -/
def own (visit : Visit) (here : Path) : Node → Multiset (Occurrence × Access)
  | ⟨span, .identifier name⟩ =>
    match visit.access? with
    | some access => {(⟨here, ⟨span, name⟩⟩, access)}
    | none => 0
  | _ => 0

end Visit

/-! ## Events of parts -/

/-- The events of a part, by how it is met. The block that is a body opens no scope. -/
def Visit.events (visit : Visit) (isBody : Bool) (here : Path) (node : Node) : List Event :=
  match visit, isBody, node with
  | .visited mode, true, ⟨_, .block statements⟩ =>
    if mode.omits (.block statements) then [] else listEvents .evaluate here .body 0 statements
  | .visited mode, _, node => scopeEvents mode here node
  | _, _, _ => []

def holdsBody : Form → Field → Bool
  | .function .., field | .arrowFunction .., field => field = .body
  | _, _ => false

/-- The events of some parts of a form. -/
def partEvents (mode : Mode) (form : Form) (here : Path) (fields : Fields) : List Event :=
  fields.children.flatMap fun child =>
    (mode.part form child.1.field).events (holdsBody form child.1.field) (child.1 :: here)
      child.2.node

/-- The events of a form, made from those of its parts. -/
def arrangement (mode : Mode) (isBody : Bool) (here : Path) (span : Span) (form : Form)
    (parts : Fields → List Event) : List Event :=
  match form with
  | .identifier name => mode.identifier ⟨here, ⟨span, name⟩⟩
  | .program _ => inScope .module here (parts form.fields)
  | .importDeclaration specifiers _ => importEvents here specifiers
  | .exportNamed declaration specifiers source =>
    parts form.fields ++ match declaration, source with
      | some declaration, _ => (declaredNames declaration).map .exported
      | none, none => exportEvents here specifiers
      | none, some _ => []
  | .exportDefault declaration =>
    parts form.fields ++ (defaultExportName? declaration).toList.map .exported
  | .function role id .. =>
    inScopeIf (role == .expression && id.isSome) .functionName here
      (nameEvents here (if role == .declaration then .function else .functionName) id
        ++ inScope .function here
          (.declare false "arguments" .implicit none :: parts form.fields))
  | .arrowFunction .. => inScope .function here (parts form.fields)
  | .classDefinition role decorators id superClass body =>
    parts (many .decorators (treesOf decorators))
      ++ (if role == .declaration then nameEvents here .classDeclaration id else [])
      ++ parts (optional .superClass (treeOf? superClass))
      ++ inScope .classBody here (nameEvents here .className id ++ parts (one .body body.tree))
  | .block _ => inScopeIf (!isBody) .block here (parts form.fields)
  | .forStatement init .. => inScopeIf (init.any isLoopLocal) .loop here (parts form.fields)
  | .forInStatement left right body | .forOfStatement left right body =>
    inScopeIf (isLoopLocal left) .loop here
      (parts (one .right right.tree ++ one .left left.tree ++ one .body body.tree))
  | .switchStatement discriminant cases =>
    parts (one .discriminant discriminant.tree)
      ++ inScope .switch here (parts (many .cases (treesOf cases)))
  | .catchClause .. => inScope .catching here (parts form.fields)
  | _ => parts form.fields

section Arrangement

variable {field : Field} (mode : Mode) (form : Form) (here : Path)

@[simp] theorem events_skipped (isBody : Bool) (node : Node) :
    Visit.skipped.events isBody here node = [] := rfl

@[simp] theorem events_exported (isBody : Bool) (node : Node) :
    Visit.exported.events isBody here node = [] := rfl

@[simp] theorem events_visited (node : Node) :
    (Visit.visited mode).events false here node = scopeEvents mode here node := rfl

@[simp] theorem events_evaluatedIf (condition : Bool) (node : Node) :
    (Visit.evaluatedIf condition).events false here node
      = if condition then scopeEvents .evaluate here node else [] := by
  cases condition <;> rfl

theorem bodyEvents_eq (node : Node) : bodyEvents here node
    = (Visit.visited .evaluate).events true (here.child .body) node := by
  obtain ⟨span, form⟩ := node
  cases form <;> simp [bodyEvents, Visit.events, scopeEvents, Mode.omits]

theorem partEvents_append (first second : Fields) :
    partEvents mode form here (first ++ second)
      = partEvents mode form here first ++ partEvents mode form here second :=
  List.flatMap_append

theorem partEvents_of_children_nil {fields : Fields} (none : fields.children = []) :
    partEvents mode form here fields = [] := by
  rw [partEvents, none, List.flatMap_nil]

theorem partEvents_one (tree : Tree) :
    partEvents mode form here (one field tree)
      = (mode.part form field).events (holdsBody form field) (here.child field) tree.node :=
  List.append_nil _

theorem partEvents_optional (tree? : Option Tree) :
    partEvents mode form here (.optional field tree?) = tree?.elim [] fun tree =>
      (mode.part form field).events (holdsBody form field) (here.child field) tree.node := by
  cases tree? with
  | none => rfl
  | some tree => exact partEvents_one ..

theorem partEvents_treesOf (nodes : List Node) :
    partEvents mode form here (many field (treesOf nodes)) = nodes.zipIdx.flatMap fun entry =>
      (mode.part form field).events (holdsBody form field) (here.item field entry.2) entry.1 := by
  simp [partEvents, Fields.children_treesOf, List.flatMap_map, Path.item]

theorem partEvents_treesOf? (nodes : List (Option Node)) :
    partEvents mode form here (sparse field (treesOf? nodes)) = nodes.zipIdx.flatMap fun entry =>
      entry.1.elim [] fun node =>
        (mode.part form field).events (holdsBody form field) (here.item field entry.2) node := by
  simp only [partEvents, sparse, treesOf?_eq_map, List.zipIdx_map, List.filterMap_map]
  induction nodes.zipIdx with
  | nil => rfl
  | cons entry rest ih =>
    obtain ⟨node?, index⟩ := entry
    cases node? <;> simp_all [Path.item]

theorem optionEvents_eq (node? : Option Node) : optionEvents here field node?
    = node?.elim [] fun node => scopeEvents .evaluate (here.child field) node := by
  cases node? <;> rfl

theorem paramEvents_eq (param : Option Node) : paramEvents here param = param.elim []
    fun node => scopeEvents (.declare .caught false false) (here.child .param) node := by
  cases param <;> rfl

theorem listEvents_eq (first : Nat) (nodes : List Node) :
    listEvents mode here field first nodes = (nodes.zipIdx first).flatMap fun entry =>
      scopeEvents mode (here.item field entry.2) entry.1 := by
  induction nodes generalizing first with
  | nil => rfl
  | cons node rest ih => rw [listEvents, ih, List.zipIdx_cons, List.flatMap_cons]

theorem sparseEvents_eq (first : Nat) (nodes : List (Option Node)) :
    sparseEvents mode here field first nodes = (nodes.zipIdx first).flatMap fun entry =>
      entry.1.elim [] fun node => scopeEvents mode (here.item field entry.2) node := by
  induction nodes generalizing first with
  | nil => rfl
  | cons node? rest ih => cases node? <;> simp [sparseEvents, ih, List.zipIdx_cons]

theorem partEvents_of_skips {fields : Fields}
    (skips : fields.All fun field _ => mode.part form field = .skipped) :
    partEvents mode form here fields = [] := by
  refine List.flatMap_eq_nil_iff.2 fun child member => ?_
  rw [skips child member, events_skipped]

theorem formEvents_eq (span : Span) : formEvents mode here span form
    = arrangement mode false here span form (partEvents mode form here) := by
  cases form with
  | breakStatement | continueStatement | jsxName =>
    exact (partEvents_of_skips _ _ _ fun _ _ => rfl).symm
  | exportNamed declaration specifiers source =>
    cases declaration <;> cases source <;>
      simp [formEvents, arrangement, Form.fields, Mode.part, holdsBody, treeOf?, partEvents_append,
        partEvents_optional, partEvents_treesOf]
  | function role id =>
    cases role <;> cases id <;>
      simp [formEvents, arrangement, Form.fields, Mode.part, holdsBody, functionScope, inScopeIf,
        flag, partEvents_of_children_nil, partEvents_append, partEvents_one, partEvents_optional,
        partEvents_treesOf, listEvents_eq, bodyEvents_eq]
  | jsxElement opening children closing =>
    cases closing <;>
      simp [formEvents, arrangement, Form.fields, Mode.part, holdsBody, treeOf?, partEvents_append,
        partEvents_one, partEvents_optional, partEvents_treesOf, listEvents_eq]
  | _ =>
    simp [formEvents, arrangement, Form.fields, Mode.part, holdsBody, inScopeIf, text, texts, flag,
      literal, Fields.empty, partEvents_of_children_nil, partEvents_append, partEvents_one,
      partEvents_optional, partEvents_treesOf, partEvents_treesOf?, treeOf?_eq_map,
      Function.comp_def, optionEvents_eq, paramEvents_eq, listEvents_eq, sparseEvents_eq,
      bodyEvents_eq]

theorem scopeEvents_eq (span : Span) : scopeEvents mode here ⟨span, form⟩
    = if mode.omits form then [] else formEvents mode here span form := by
  cases mode <;> simp [scopeEvents, Mode.omits]

/-- **The events of a node are arranged from those of its parts.** -/
theorem events_visited_eq (isBody : Bool) (span : Span) :
    (Visit.visited mode).events isBody here ⟨span, form⟩ = if mode.omits form then []
      else arrangement mode isBody here span form (partEvents mode form here) := by
  cases form with
  | block statements =>
    cases isBody <;>
      simp [Visit.events, arrangement, inScopeIf, Form.fields, Mode.part, holdsBody, scopeEvents_eq,
        formEvents, partEvents_treesOf, listEvents_eq]
  | _ =>
    refine Eq.trans (b := scopeEvents mode here ⟨span, _⟩) (by cases isBody <;> rfl) ?_
    rw [scopeEvents_eq, formEvents_eq]
    rfl

end Arrangement

/-! ## The references of events -/

def Event.reference? : Event → Option (Occurrence × Access)
  | .refer occurrence access => some (occurrence, access)
  | _ => none

/-- The references among events, whatever their order. -/
def references (events : List Event) : Multiset (Occurrence × Access) :=
  ↑(events.filterMap Event.reference?)

@[simp] theorem references_nil : references [] = 0 := rfl

@[simp] theorem references_append (first second : List Event) :
    references (first ++ second) = references first + references second := by
  simp [references]

theorem references_flatMap {α : Type} (items : List α) (events : α → List Event) :
    references (items.flatMap events) = (items.map fun item => references (events item)).sum := by
  induction items with
  | nil => rfl
  | cons item rest ih => simp [ih]

theorem references_of_forall_none {events : List Event}
    (none : ∀ event ∈ events, event.reference? = none) : references events = 0 := by
  rw [references, List.filterMap_eq_nil_iff.2 none]
  rfl

theorem references_cons {event : Event} (none : event.reference? = none) (rest : List Event) :
    references (event :: rest) = references rest := by
  simp [references, none]

@[simp] theorem references_declare (hoisted : Bool) (name : String) (kind : VariableKind)
    (definition : Option Occurrence) (rest : List Event) :
    references (.declare hoisted name kind definition :: rest) = references rest :=
  references_cons rfl rest

@[simp] theorem references_inScope (kind : ScopeKind) (block : Path) (events : List Event) :
    references (inScope kind block events) = references events := by
  have last : references [.leave] = 0 := rfl
  rw [inScope, List.cons_append, references_cons rfl, references_append, last, add_zero]

@[simp] theorem references_inScopeIf (condition : Bool) (kind : ScopeKind) (block : Path)
    (events : List Event) :
    references (inScopeIf condition kind block events) = references events := by
  cases condition <;> simp [inScopeIf]

@[simp] theorem references_ite (condition : Prop) [Decidable condition] (events : List Event) :
    references (if condition then events else []) = if condition then references events else 0 := by
  split <;> rfl

@[simp] theorem references_nameEvents (here : Path) (kind : VariableKind) (id : Option Ident) :
    references (nameEvents here kind id) = 0 := by
  cases id <;> rfl

@[simp] theorem references_map_exported (names : List String) :
    references (names.map .exported) = 0 :=
  references_of_forall_none (by simp [Event.reference?])

@[simp] theorem references_importEvents (here : Path) (specifiers : List Node) :
    references (importEvents here specifiers) = 0 := by
  refine references_of_forall_none fun event member => ?_
  obtain ⟨_, _, found⟩ := List.mem_filterMap.1 member
  obtain ⟨_, _, rfl⟩ := Option.map_eq_some_iff.1 found
  rfl

theorem references_identifier (mode : Mode) (here : Path) (span : Span) (name : String) :
    references (mode.identifier ⟨here, ⟨span, name⟩⟩)
      = (Visit.visited mode).own here ⟨span, .identifier name⟩ := by
  match mode with
  | .evaluate => rfl
  | .assign _ => rfl
  | .declare _ _ true => rfl
  | .declare _ _ false => rfl

/-! ## The references of trees -/

mutual

/-- The references in a tree that is visited in a mode. -/
def treeReferences (visit : Visit) (here : Path) : Tree → Multiset (Occurrence × Access)
  | .mk node _ children =>
    visit.own here node + childReferences (visit.part node.form) here children

def childReferences (visit : Field → Visit) (here : Path) :
    List (Step × Tree) → Multiset (Occurrence × Access)
  | [] => 0
  | (step, tree) :: rest =>
    treeReferences (visit step.field) (step :: here) tree + childReferences visit here rest

end

def fieldReferences (visit : Field → Visit) (here : Path) (fields : Fields) :
    Multiset (Occurrence × Access) :=
  childReferences visit here fields.children

theorem childReferences_eq_sum (visit : Field → Visit) (here : Path)
    (children : List (Step × Tree)) :
    childReferences visit here children = (children.map fun child =>
      treeReferences (visit child.1.field) (child.1 :: here) child.2).sum := by
  induction children with
  | nil => simp [childReferences]
  | cons child rest ih => simp [childReferences, ih]

theorem treeReferences_eq (visit : Visit) (here : Path) (tree : Tree) :
    treeReferences visit here tree = visit.own here tree.node
      + childReferences (visit.part tree.node.form) here tree.children := by
  obtain ⟨node, layout, children⟩ := tree
  rw [treeReferences]
  rfl

theorem treeReferences_tree (visit : Visit) (here : Path) (span : Span) (form : Form) :
    treeReferences visit here (Node.tree ⟨span, form⟩)
      = visit.own here ⟨span, form⟩ + fieldReferences (visit.part form) here form.fields := by
  rw [Node.tree, treeOf, treeReferences, fieldReferences]
  rfl

theorem treeReferences_ident (visit : Visit) (here : Path) (id : Ident) :
    treeReferences visit here id.tree = visit.own here id.node := by
  simp [Ident.tree, treeOf, treeReferences, childReferences, text]

section Fields

variable (visit : Field → Visit) (here : Path)

theorem childReferences_append (first second : List (Step × Tree)) :
    childReferences visit here (first ++ second)
      = childReferences visit here first + childReferences visit here second := by
  induction first with
  | nil => simp [childReferences]
  | cons child rest ih => simp [childReferences, ih, add_assoc]

@[simp] theorem fieldReferences_append (first second : Fields) :
    fieldReferences visit here (first ++ second)
      = fieldReferences visit here first + fieldReferences visit here second :=
  childReferences_append ..

@[simp] theorem fieldReferences_empty : fieldReferences visit here .empty = 0 := by
  simp [fieldReferences, Fields.empty, childReferences]

@[simp] theorem fieldReferences_text (value : String) :
    fieldReferences visit here (text field value) = 0 := by
  simp [fieldReferences, text, childReferences]

@[simp] theorem fieldReferences_texts (values : List String) :
    fieldReferences visit here (texts field values) = 0 := by
  simp [fieldReferences, texts, childReferences]

@[simp] theorem fieldReferences_flag (value : Bool) :
    fieldReferences visit here (flag field value) = 0 := by
  simp [fieldReferences, flag, childReferences]

@[simp] theorem fieldReferences_literal (value : LiteralValue) :
    fieldReferences visit here (literal field value) = 0 := by
  simp [fieldReferences, literal, childReferences]

@[simp] theorem fieldReferences_one (tree : Tree) :
    fieldReferences visit here (one field tree)
      = treeReferences (visit field) (here.child field) tree := by
  simp [fieldReferences, one, childReferences, Path.child]

@[simp] theorem fieldReferences_optional (tree? : Option Tree) :
    fieldReferences visit here (.optional field tree?)
      = tree?.elim 0 (treeReferences (visit field) (here.child field)) := by
  cases tree? with
  | none => simp [fieldReferences, Fields.optional, childReferences]
  | some tree => exact fieldReferences_one ..

end Fields

/-! ## What is skipped -/

@[simp] theorem Visit.own_skipped (here : Path) (node : Node) :
    Visit.skipped.own here node = 0 := by
  obtain ⟨span, form⟩ := node
  cases form <;> rfl

mutual

@[simp] theorem treeReferences_skipped (here : Path) :
    (tree : Tree) → treeReferences .skipped here tree = 0
  | .mk ⟨span, form⟩ _ children => by
    rw [treeReferences, Visit.own_skipped, zero_add]
    exact childReferences_skipped here children

theorem childReferences_skipped (here : Path) :
    (children : List (Step × Tree)) → childReferences (fun _ => .skipped) here children = 0
  | [] => by rw [childReferences]
  | (step, tree) :: rest => by
    rw [childReferences, treeReferences_skipped, childReferences_skipped, add_zero]

end

theorem fieldReferences_skipped {visit : Field → Visit} (skips : ∀ field, visit field = .skipped)
    (here : Path) (fields : Fields) : fieldReferences visit here fields = 0 := by
  rw [funext skips]
  exact childReferences_skipped ..

/-! ## Events and trees agree -/

/-- The events of a node have the references of its tree, however it is met. -/
def Agrees (node : Node) : Prop :=
  ∀ visit isBody here, visit ≠ .exported →
    references (visit.events isBody here node) = treeReferences visit here node.tree

/-- The events of every part have the references of its tree. -/
def PartsAgree (fields : Fields) : Prop := fields.All fun _ tree => tree.IsView ∧ Agrees tree.node

theorem partsAgree_append (first second : Fields) :
    PartsAgree (first ++ second) ↔ PartsAgree first ∧ PartsAgree second :=
  Fields.all_append ..

theorem part_ne_exported {form : Form} (takes : ∀ field, form.takesSpecifier field = false)
    (mode : Mode) (field : Field) : mode.part form field ≠ .exported := by
  have here := takes .specifiers
  unfold Mode.part Visit.evaluatedIf
  split <;> grind [Form.takesSpecifier]

theorem references_partEvents {mode : Mode} {form : Form} {fields : Fields}
    (inside : ∀ field, mode.part form field ≠ .exported) (agree : PartsAgree fields) (here : Path) :
    references (partEvents mode form here fields)
      = fieldReferences (mode.part form) here fields := by
  rw [partEvents, references_flatMap, fieldReferences, childReferences_eq_sum]
  refine congrArg List.sum (List.map_congr_left fun child member => ?_)
  obtain ⟨view, agree⟩ := agree child member
  rw [agree _ _ _ (inside _), ← view]

theorem references_exportEvents (visit : Field → Visit) (exports : visit .specifiers = .exported)
    (here : Path) (specifiers : List Node) :
    references (exportEvents here specifiers)
      = fieldReferences visit here (many .specifiers (treesOf specifiers)) := by
  rw [exportEvents, references_flatMap, fieldReferences, childReferences_eq_sum,
    Fields.children_treesOf, List.map_map]
  refine congrArg List.sum (List.map_congr_left fun entry _ => ?_)
  obtain ⟨⟨span, form⟩, index⟩ := entry
  simp only [Function.comp, exports, treeReferences_tree]
  cases form with
  | exportSpecifier binding exported =>
    simp [Form.fields, Visit.part, Visit.own, Visit.access?, Ident.node, treeReferences_ident,
      references, Event.reference?, Path.item]
  | _ => exact (congrArg (0 + ·) (fieldReferences_skipped (fun _ => rfl) _ _)).symm

theorem references_arrangement (mode : Mode) (isBody : Bool) (here : Path) (span : Span)
    (form : Form) (agree : PartsAgree form.fields) :
    references (arrangement mode isBody here span form (partEvents mode form here))
      = (Visit.visited mode).own here ⟨span, form⟩
        + fieldReferences (mode.part form) here form.fields := by
  have parts : (∀ field, form.takesSpecifier field = false) → ∀ fields, PartsAgree fields →
      references (partEvents mode form here fields)
        = fieldReferences (mode.part form) here fields :=
    fun takes _ agree => references_partEvents (part_ne_exported takes mode) agree here
  cases form with
  | identifier name => simp [arrangement, references_identifier, Form.fields]
  | importDeclaration =>
    simp only [arrangement, Visit.own, references_importEvents, zero_add]
    exact (fieldReferences_skipped (fun _ => rfl) _ _).symm
  | exportNamed declaration specifiers source =>
    by_cases alone : declaration = none ∧ source = none
    · obtain ⟨rfl, rfl⟩ := alone
      have silent : partEvents mode (.exportNamed none specifiers none) here
          (Form.exportNamed none specifiers none).fields = [] := by
        simp [Form.fields, Mode.part, treeOf?, partEvents_append, partEvents_optional,
          partEvents_treesOf]
      rw [arrangement, silent]
      simp [Visit.own, Form.fields, treeOf?,
        references_exportEvents (mode.part (.exportNamed none specifiers none)) rfl]
    · have inside : ∀ field, mode.part (.exportNamed declaration specifiers source) field
          ≠ .exported := by
        intro field
        simp only [Mode.part]
        split_ifs <;> simp_all
      cases declaration <;> cases source <;>
        simp_all [arrangement, Visit.own, references_partEvents inside agree]
  | classDefinition role decorators id =>
    simp only [Form.fields, partsAgree_append] at agree
    have parts := parts fun _ => rfl
    cases id <;> simp [arrangement, Visit.own, Form.fields, parts, agree, Mode.part, add_assoc]
  | switchStatement =>
    simp only [Form.fields, partsAgree_append] at agree
    have parts := parts fun _ => rfl
    simp [arrangement, Visit.own, Form.fields, parts, agree]
  | forInStatement | forOfStatement =>
    simp only [Form.fields, partsAgree_append] at agree
    have parts := parts fun _ => rfl
    -- The target is written after the right side has been evaluated.
    simp [arrangement, Visit.own, Form.fields, parts, agree, partsAgree_append, add_comm]
  | _ =>
    have parts := parts fun _ => rfl
    simp [arrangement, Visit.own, parts, agree]

/-- **The references among the events of a node are those of its tree.** -/
theorem references_events (node : Node) : Agrees node := by
  have views := Tree.view_induction (motive := fun tree => Agrees tree.node)
    fun span form parts => ?_
  · simpa using views node.tree node.isView_tree
  rw [Node.node_tree]
  intro visit isBody here inside
  have agree : PartsAgree form.fields := by
    rw [Node.tree] at parts
    exact fun child member => ⟨form.allViews_fields child member, parts child member⟩
  cases visit with
  | skipped => simp
  | exported => exact absurd rfl inside
  | visited mode =>
    rw [treeReferences_tree, events_visited_eq]
    cases omitted : mode.omits form with
    | false =>
      have visited : (Visit.visited mode).part form = mode.part form := by
        funext field
        simp [Visit.part, omitted]
      rw [visited]
      exact references_arrangement mode isBody here span form agree
    | true =>
      have skips : ∀ field, (Visit.visited mode).part form field = .skipped := by
        simp [Visit.part, omitted]
      rw [fieldReferences_skipped skips]
      cases form with
      | identifier => simp [Mode.omits, isPatternPart] at omitted
      | _ => rfl

/-! ## The references at a place -/

/-- How the node at a place is met, by how the whole tree is. -/
def visitAt (root : Tree) (visit : Visit) : Path → Visit
  | [] => visit
  | step :: parent =>
    match root.nodeAt? parent with
    | some node => (visitAt root visit parent).part node.form step.field
    | none => .skipped

theorem nodeAt?_concat {tree child : Tree} {step : Step} (found : tree.child? step = some child)
    (rest : Path) : tree.nodeAt? (rest ++ [step]) = child.nodeAt? rest := by
  rw [Tree.nodeAt?, Tree.at?_concat, found]
  rfl

theorem visitAt_concat {tree child : Tree} {step : Step} (found : tree.child? step = some child)
    (visit : Visit) (rest : Path) :
    visitAt tree visit (rest ++ [step])
      = visitAt child (visit.part tree.node.form step.field) rest := by
  induction rest with
  | nil => rfl
  | cons last rest ih =>
    rw [List.cons_append, visitAt, visitAt, nodeAt?_concat found, ih]

theorem mem_own {visit : Visit} {here : Path} {node : Node} {reference : Occurrence × Access}
    (member : reference ∈ visit.own here node) :
    reference.1.place = here ∧ node = reference.1.id.node := by
  obtain ⟨span, form⟩ := node
  cases form with
  | identifier name =>
    simp only [Visit.own] at member
    split at member
    · rw [Multiset.mem_singleton.1 member]
      exact ⟨rfl, rfl⟩
    · cases member
  | _ => cases member

theorem mem_childReferences {visit : Field → Visit} {here : Path} {children : List (Step × Tree)}
    {reference : Occurrence × Access} (member : reference ∈ childReferences visit here children) :
    ∃ child ∈ children,
      reference ∈ treeReferences (visit child.1.field) (child.1 :: here) child.2 := by
  induction children with
  | nil =>
    rw [childReferences] at member
    cases member
  | cons first rest ih =>
    rw [childReferences, Multiset.mem_add] at member
    rcases member with here | later
    · exact ⟨first, .head _, here⟩
    · obtain ⟨child, listed, inside⟩ := ih later
      exact ⟨child, .tail _ listed, inside⟩

theorem nodeAt?_of_mem_treeReferences : ∀ tree : Tree, tree.IsView →
    ∀ {visit : Visit} {here : Path} {reference : Occurrence × Access},
      reference ∈ treeReferences visit here tree → ∃ rest, reference.1.place = rest ++ here
        ∧ tree.nodeAt? rest = some reference.1.id.node := by
  refine Tree.view_induction fun span form parts => ?_
  intro visit here reference member
  have view := Node.isView_tree ⟨span, form⟩
  rw [treeReferences_tree, Multiset.mem_add] at member
  rcases member with own | below
  · obtain ⟨place, node⟩ := mem_own own
    refine ⟨[], place, ?_⟩
    rw [← node]
    exact congrArg some (Node.node_tree _)
  · obtain ⟨⟨step, child⟩, listed, inside⟩ := mem_childReferences below
    have listed : (step, child) ∈ (Node.tree ⟨span, form⟩).children := by
      rw [Node.tree]
      exact listed
    obtain ⟨rest, place, node⟩ := parts _ listed inside
    have found := (Tree.child?_eq_some_iff view step child).2 listed
    refine ⟨rest ++ [step], by simp [place], ?_⟩
    rw [nodeAt?_concat found, node]

def atPlace (place : Path) (references : Multiset (Occurrence × Access)) :
    Multiset (Occurrence × Access) :=
  references.filter fun reference => reference.1.place = place

theorem atPlace_add (place : Path) (first second : Multiset (Occurrence × Access)) :
    atPlace place (first + second) = atPlace place first + atPlace place second :=
  Multiset.filter_add ..

theorem atPlace_own (visit : Visit) (here : Path) (node : Node) :
    atPlace here (visit.own here node) = visit.own here node := by
  obtain ⟨span, form⟩ := node
  cases form with
  | identifier name => cases access : visit.access? <;> simp [Visit.own, access, atPlace]
  | _ => rfl

theorem atPlace_own_of_ne {place here : Path} (differ : here ≠ place) (visit : Visit)
    (node : Node) : atPlace place (visit.own here node) = 0 := by
  obtain ⟨span, form⟩ := node
  cases form with
  | identifier name => cases access : visit.access? <;> simp [Visit.own, access, atPlace, differ]
  | _ => rfl

section Children

variable {children : List (Step × Tree)} (views : ∀ child ∈ children, child.2.IsView)
  (visit : Field → Visit) (here rest : Path)

include views

theorem atPlace_childReferences_of_not_mem {step : Step} (absent : step ∉ children.map Prod.fst) :
    atPlace (rest ++ step :: here) (childReferences visit here children) = 0 := by
  refine Multiset.filter_eq_nil.2 fun reference member same => ?_
  obtain ⟨⟨other, child⟩, listed, inside⟩ := mem_childReferences member
  obtain ⟨others, place, _⟩ := nodeAt?_of_mem_treeReferences child (views _ listed) inside
  rw [same] at place
  have both : step :: here = other :: here := (List.append_inj' place (by simp)).2
  have equal : step = other := (List.cons.inj both).1
  exact absent (equal ▸ List.mem_map.2 ⟨_, listed, rfl⟩)

theorem atPlace_childReferences (distinct : (children.map Prod.fst).Nodup) {step : Step}
    {child : Tree} (found : (step, child) ∈ children) :
    atPlace (rest ++ step :: here) (childReferences visit here children)
      = atPlace (rest ++ step :: here)
        (treeReferences (visit step.field) (step :: here) child) := by
  induction children with
  | nil => cases found
  | cons first others ih =>
    obtain ⟨other, tree⟩ := first
    obtain ⟨fresh, distinct⟩ := List.nodup_cons.1 distinct
    obtain ⟨viewFirst, viewOthers⟩ := List.forall_mem_cons.1 views
    rw [childReferences, atPlace_add]
    rcases List.mem_cons.1 found with same | later
    · obtain ⟨rfl, rfl⟩ := Prod.mk.inj same
      rw [atPlace_childReferences_of_not_mem viewOthers visit here rest fresh, add_zero]
    · have alone : childReferences visit here [(other, tree)]
          = treeReferences (visit other.field) (other :: here) tree := by
        rw [childReferences, childReferences, add_zero]
      have apart : step ∉ [(other, tree)].map Prod.fst := fun member => by
        have equal : step = other := by simpa using member
        exact fresh (equal ▸ List.mem_map.2 ⟨_, later, rfl⟩)
      rw [← alone, atPlace_childReferences_of_not_mem (by simpa using viewFirst) _ _ _ apart,
        zero_add, ih viewOthers distinct later]

theorem atPlace_childReferences_here : atPlace here (childReferences visit here children) = 0 := by
  refine Multiset.filter_eq_nil.2 fun reference member same => ?_
  obtain ⟨⟨step, child⟩, listed, inside⟩ := mem_childReferences member
  obtain ⟨others, place, _⟩ := nodeAt?_of_mem_treeReferences child (views _ listed) inside
  have lengths := congrArg List.length (same.symm.trans place)
  simp only [List.length_append, List.length_cons] at lengths
  omega

end Children

/-- **The references at a place of a tree are those that the node there has by the way it is
met.** -/
theorem atPlace_treeReferences (rest : Path) :
    ∀ {tree : Tree}, tree.IsView → ∀ (visit : Visit) (here : Path) {node : Node},
      tree.nodeAt? rest = some node →
      atPlace (rest ++ here) (treeReferences visit here tree)
        = (visitAt tree visit rest).own (rest ++ here) node := by
  induction rest using List.reverseRecOn with
  | nil =>
    intro tree view visit here node found
    have top : tree.node = node := Option.some.inj found
    rw [List.nil_append, treeReferences_eq, atPlace_add, atPlace_own, top,
      atPlace_childReferences_here (isView_child view), add_zero]
    rfl
  | append_singleton rest step ih =>
    intro tree view visit here node found
    obtain ⟨below, path, _⟩ := Option.map_eq_some_iff.1 found
    rw [Tree.at?_concat] at path
    obtain ⟨child, foundChild, _⟩ := Option.bind_eq_some_iff.1 path
    have listed := (Tree.child?_eq_some_iff view step child).1 foundChild
    have views := isView_child view
    have outside : here ≠ rest ++ step :: here := fun same => by
      have lengths := congrArg List.length same
      simp only [List.length_append, List.length_cons] at lengths
      omega
    rw [nodeAt?_concat foundChild] at found
    rw [visitAt_concat foundChild, List.append_assoc, List.singleton_append, treeReferences_eq,
      atPlace_add, atPlace_own_of_ne outside, zero_add,
      atPlace_childReferences views _ _ _ (Tree.nodup_steps view) listed]
    exact ih (views _ listed) _ _ found

end TemplateLint.Scope
