import TemplateLint.Proofs.Scope.Declarations

/-!
# The scopes that references are made in

**Every reference of a program is made in the scope of the regions around it** (`stack_reference`),
which are known from the forms above it (`surroundings`). Events are faithful if each reference
among them is met in the regions around its place (`Faithful`), and those of a node are, by its
forms and fields (`faithful_programEvents`). A table carries this over to the scopes of its
references (`Table.placed_step`).
-/

namespace TemplateLint.Syntax.Fields

variable (field : Field)

/-! ## Children by steps -/

def Each (holds : Step → Tree → Prop) (fields : Fields) : Prop :=
  ∀ child ∈ fields.children, holds child.1 child.2

variable {holds : Step → Tree → Prop}

@[simp] theorem each_append (first second : Fields) :
    (first ++ second).Each holds ↔ first.Each holds ∧ second.Each holds :=
  List.forall_mem_append

theorem each_of_children_nil {fields : Fields} (none : fields.children = []) :
    fields.Each holds := by
  intro child member
  rw [none] at member
  cases member

@[simp] theorem each_text (value : String) : (text field value).Each holds :=
  each_of_children_nil rfl

@[simp] theorem each_flag (value : Bool) : (flag field value).Each holds :=
  each_of_children_nil rfl

@[simp] theorem each_texts (values : List String) :
    (texts field values).Each holds :=
  each_of_children_nil rfl

@[simp] theorem each_literal (value : LiteralValue) :
    (literal field value).Each holds :=
  each_of_children_nil rfl

@[simp] theorem each_empty : Fields.empty.Each holds := each_of_children_nil rfl

@[simp] theorem each_true (fields : Fields) : fields.Each fun _ _ => True := fun _ _ => trivial

@[simp] theorem each_one (tree : Tree) :
    (one field tree).Each holds ↔ holds ⟨field, 0⟩ tree := by
  simp [Each, one]

@[simp] theorem each_none : (optional field none).Each holds :=
  each_of_children_nil rfl

@[simp] theorem each_some (tree : Tree) :
    (optional field (some tree)).Each holds ↔ holds ⟨field, 0⟩ tree := each_one field tree

@[simp] theorem each_treeOf? (node? : Option Node) :
    (optional field (treeOf? node?)).Each holds ↔ ∀ node ∈ node?, holds ⟨field, 0⟩ node.tree := by
  cases node? <;> simp [treeOf?]

theorem each_ident? (id? : Option Ident) :
    (optional field (id?.map Ident.tree)).Each holds ↔ ∀ id ∈ id?, holds ⟨field, 0⟩ id.tree := by
  cases id? <;> simp

@[simp] theorem each_treesOf (nodes : List Node) :
    (many field (treesOf nodes)).Each holds
      ↔ ∀ entry ∈ nodes.zipIdx, holds ⟨field, entry.2⟩ entry.1.tree := by
  rw [Each, children_treesOf, List.forall_mem_map]

end TemplateLint.Syntax.Fields

namespace TemplateLint.Scope

open TemplateLint.Syntax
open TemplateLint.Syntax.Fields (one optional many sparse text texts flag literal treeOf)

/-! ## Surroundings -/

/-- The regions around a place, from the inside out. -/
def surroundings (root : Node) (place : Path) : List Region := (programSetting root place).around

theorem programSetting_cons {root node : Node} {place : Path}
    (found : root.tree.nodeAt? place = some node) (step : Step) :
    programSetting root (step :: place)
      = (programSetting root place).part node.form place step.field := by
  rw [programSetting, settingAt, found]
  exact congrArg (Setting.part _ _ · _) (List.append_nil place)

theorem surroundings_cons {root node : Node} {place : Path}
    (found : root.tree.nodeAt? place = some node) (step : Step) :
    surroundings root (step :: place)
      = (programSetting root place).aroundPart node.form place step.field :=
  congrArg Setting.around (programSetting_cons found step)

/-! ## Faithful events -/

/-- An event is met in the regions that are around its place. -/
def Event.StandsIn (root : Node) (exposes : List Region → String → Prop) (around : List Region) :
    Event → Prop
  | .refer occurrence _ => surroundings root occurrence.place = around
  | .exported name => exposes around name
  | _ => True

/-- Every reference among some events is met in the regions around its place, and every export
in regions in which the name may be exposed. -/
def Faithful (root : Node) (exposes : List Region → String → Prop) :
    List Region → List Event → Prop
  | _, [] => True
  | around, event :: rest =>
    event.StandsIn root exposes around ∧ Faithful root exposes (event.move around) rest

section Events

variable {root : Node} {exposes : List Region → String → Prop} (around : List Region)

@[simp] theorem faithful_nil : Faithful root exposes around [] := trivial

@[simp] theorem faithful_append (first second : List Event) :
    Faithful root exposes around (first ++ second)
      ↔ Faithful root exposes around first
        ∧ Faithful root exposes (regionsAfter around first) second := by
  induction first generalizing around with
  | nil => simp
  | cons event rest ih => simp [Faithful, ih, regionsAfter, and_assoc]

@[simp] theorem faithful_inScope (kind : ScopeKind) (block : Path) (events : List Event) :
    Faithful root exposes around (inScope kind block events)
      ↔ Faithful root exposes (⟨kind, block⟩ :: around) events := by
  simp [inScope, Faithful, Event.StandsIn, Event.move]

@[simp] theorem faithful_inScopeIf (condition : Bool) (kind : ScopeKind) (block : Path)
    (events : List Event) :
    Faithful root exposes around (inScopeIf condition kind block events)
      ↔ Faithful root exposes ((if condition then [kind] else []).map (⟨·, block⟩) ++ around)
        events := by
  cases condition <;> simp [inScopeIf]

@[simp] theorem faithful_ite (condition : Prop) [Decidable condition] (events : List Event) :
    Faithful root exposes around (if condition then events else [])
      ↔ (condition → Faithful root exposes around events) := by
  split <;> simp [*]

theorem faithful_iff_of_still {events : List Event}
    (still : ∀ event ∈ events, event.move around = around) :
    Faithful root exposes around events
      ↔ ∀ event ∈ events, event.StandsIn root exposes around := by
  induction events with
  | nil => simp
  | cons event rest ih =>
    obtain ⟨same, others⟩ := List.forall_mem_cons.1 still
    rw [Faithful, same, ih others, List.forall_mem_cons]

@[simp] theorem faithful_nameEvents (here : Path) (kind : VariableKind) (id : Option Ident) :
    Faithful root exposes around (nameEvents here kind id) := by
  cases id with
  | none => trivial
  | some id => exact ⟨trivial, trivial⟩

@[simp] theorem faithful_declare (hoisted : Bool) (name : String) (kind : VariableKind)
    (definition : Option Occurrence) (rest : List Event) :
    Faithful root exposes around (.declare hoisted name kind definition :: rest)
      ↔ Faithful root exposes around rest := by
  simp [Faithful, Event.StandsIn, Event.move]

@[simp] theorem faithful_map_exported (names : List String) :
    Faithful root exposes around (names.map .exported) ↔ ∀ name ∈ names, exposes around name := by
  rw [faithful_iff_of_still around (by simp [Event.move]), List.forall_mem_map]
  rfl

@[simp] theorem faithful_importEvents (here : Path) (specifiers : List Node) :
    Faithful root exposes around (importEvents here specifiers) := by
  have declares : ∀ event ∈ importEvents here specifiers,
      event.move around = around ∧ event.StandsIn root exposes around := by
    intro event member
    obtain ⟨_, _, found⟩ := List.mem_filterMap.1 member
    obtain ⟨_, _, rfl⟩ := Option.map_eq_some_iff.1 found
    exact ⟨rfl, trivial⟩
  exact (faithful_iff_of_still around fun event member => (declares event member).1).2
    fun event member => (declares event member).2

theorem faithful_identifier {occurrence : Occurrence}
    (stands : surroundings root occurrence.place = around) (mode : Mode) :
    Faithful root exposes around (mode.identifier occurrence) := by
  match mode with
  | .evaluate => exact ⟨stands, trivial⟩
  | .assign _ => exact ⟨stands, trivial⟩
  | .declare _ _ true => exact ⟨trivial, stands, trivial⟩
  | .declare _ _ false => exact ⟨trivial, trivial⟩

end Events

/-! ## Nodes and their parts -/

def specifiedName? : Node → Option String
  | ⟨_, .exportSpecifier binding _⟩ => some binding.name
  | _ => none

/-- The names that an export statement exports, in the order of the text. -/
def exportNames : Form → List String
  | .exportNamed (some declaration) _ _ => declaredNames declaration
  | .exportNamed none specifiers none => specifiers.filterMap specifiedName?
  | .exportDefault declaration => (defaultExportName? declaration).toList
  | _ => []

/-- The events of every part are met in the regions that are around their places. -/
def PartsFaithful (root : Node) (exposes : List Region → String → Prop) (inside : Field → Setting)
    (visit : Field → Visit) (here : Path) (fields : Fields) : Prop :=
  fields.Each fun step tree => Faithful root exposes (inside step.field).around
    ((visit step.field).events (inside step.field).isBody (step :: here) tree.node)

theorem partsFaithful_append {root : Node} {exposes : List Region → String → Prop}
    {inside : Field → Setting} {visit : Field → Visit} {here : Path} (first second : Fields) :
    PartsFaithful root exposes inside visit here (first ++ second)
      ↔ PartsFaithful root exposes inside visit here first
        ∧ PartsFaithful root exposes inside visit here second :=
  Fields.each_append ..

/-- The events of parts that have the same regions around them, but for those that are skipped. -/
theorem faithful_partEvents (root : Node) (exposes : List Region → String → Prop)
    {setting : Setting} {mode : Mode} {form : Form} {here : Path} {fields : Fields} {around : List Region}
    (same : fields.All fun field _ => mode.part form field ≠ .skipped →
      (setting.part form here field).around = around) :
    Faithful root exposes around (partEvents mode form here fields)
      ↔ PartsFaithful root exposes (setting.part form here) (mode.part form) here fields := by
  obtain ⟨layout, children⟩ := fields
  rw [partEvents, PartsFaithful, Fields.Each]
  induction children with
  | nil => simp
  | cons child rest ih =>
    obtain ⟨first, others⟩ := List.forall_mem_cons.1 same
    rw [List.flatMap_cons, faithful_append, regionsAfter_events, ih others, List.forall_mem_cons,
      Setting.isBody_part]
    refine and_congr_left fun _ => ?_
    by_cases skipped : mode.part form child.1.field = .skipped
    · simp [skipped]
    · rw [first skipped]

section Forms

variable {root : Node} {here : Path} {span : Span} {form : Form}
  (found : root.tree.at? here = some (Node.tree ⟨span, form⟩))

include found

theorem nodeAt?_here : root.tree.nodeAt? here = some ⟨span, form⟩ := by
  rw [Tree.nodeAt?, found, Option.map_some, Node.node_tree]

theorem at?_child {step : Step} {child : Tree} (listed : (step, child) ∈ form.fields.children) :
    root.tree.at? (step :: here) = some child := by
  have view := Node.isView_tree ⟨span, form⟩
  have inTree : (step, child) ∈ (Node.tree ⟨span, form⟩).children := by
    rw [Node.tree]
    exact listed
  rw [Tree.at?, found]
  exact (Tree.child?_eq_some_iff view step child).2 inTree

variable (exposes : List Region → String → Prop)

theorem faithful_exportEvents {specifiers : List Node}
    (exports : form = .exportNamed none specifiers none) :
    Faithful root exposes (surroundings root here) (exportEvents here specifiers)
      ↔ ∀ name ∈ specifiers.filterMap specifiedName?, exposes (surroundings root here) name := by
  subst exports
  have child : (many .specifiers (treesOf specifiers)).Each fun step tree =>
      root.tree.at? (step :: here) = some tree := by
    intro child inField
    refine at?_child found ?_
    rw [Form.fields]
    exact List.mem_append_left _ (List.mem_append_right _ inField)
  have stands : ∀ event ∈ exportEvents here specifiers, event.move (surroundings root here)
      = surroundings root here
      ∧ (event.StandsIn root exposes (surroundings root here)
        ↔ ∀ name, event = .exported name → exposes (surroundings root here) name) := by
    intro event member
    obtain ⟨index, _, binding, _, listed, rfl | rfl⟩ := mem_exportEvents.1 member
    · have below := (Fields.each_treesOf .specifiers specifiers).1 child _
        (List.mk_mem_zipIdx_iff_getElem?.2 listed)
      have around := surroundings_cons (nodeAt?_here below) ⟨.binding, 0⟩
      have outer := surroundings_cons (nodeAt?_here found) ⟨.specifiers, index⟩
      exact ⟨rfl, fun _ => nofun, fun _ => around.trans outer⟩
    · exact ⟨rfl, fun exposed _ same => Event.exported.inj same ▸ exposed, fun each => each _ rfl⟩
  rw [faithful_iff_of_still _ fun event member => (stands event member).1]
  constructor
  · intro each name member
    obtain ⟨⟨inner, specifier⟩, listed, named⟩ := List.mem_filterMap.1 member
    obtain ⟨index, listed⟩ := List.mem_iff_getElem?.1 listed
    cases specifier with
    | exportSpecifier binding exported =>
      obtain rfl : binding.name = name := Option.some.inj named
      exact each _ (mem_exportEvents.2 ⟨index, _, binding, exported, listed, .inr rfl⟩)
    | _ => cases named
  · intro each event member
    refine (stands event member).2.2 fun name same => each name ?_
    obtain ⟨index, _, binding, _, listed, rfl | rfl⟩ := mem_exportEvents.1 member
    · cases same
    · cases same
      exact List.mem_filterMap.2 ⟨_, List.mem_of_getElem? listed, rfl⟩

theorem faithful_arrangement (mode : Mode) :
    Faithful root exposes (surroundings root here)
        (arrangement mode (programSetting root here).isBody here span form
          (partEvents mode form here))
      ↔ (∀ name ∈ exportNames form, exposes (surroundings root here) name)
        ∧ PartsFaithful root exposes ((programSetting root here).part form here) (mode.part form)
          here form.fields := by
  have parts : ∀ (fields : Fields) (around : List Region), (fields.All fun field _ =>
      mode.part form field ≠ .skipped →
        ((programSetting root here).part form here field).around = around) →
      (Faithful root exposes around (partEvents mode form here fields)
        ↔ PartsFaithful root exposes ((programSetting root here).part form here) (mode.part form)
          here fields) := fun fields around => faithful_partEvents root exposes
  have whole : ∀ around : List Region, (∀ field, mode.part form field ≠ .skipped →
      ((programSetting root here).part form here field).around = around) →
      (Faithful root exposes around (partEvents mode form here form.fields)
        ↔ PartsFaithful root exposes ((programSetting root here).part form here) (mode.part form)
          here form.fields) := fun around same => parts _ around fun child _ => same _
  cases form with
  | identifier name =>
    have stands : Faithful root exposes (surroundings root here)
        (mode.identifier ⟨here, ⟨span, name⟩⟩) := faithful_identifier _
      (show surroundings root here = _ from rfl) mode
    simpa [arrangement, exportNames, PartsFaithful, Form.fields] using stands
  | importDeclaration => simp [arrangement, exportNames, PartsFaithful, Mode.part]
  | exportNamed declaration specifiers source =>
    have faithful := whole (surroundings root here) fun _ _ => rfl
    cases declaration with
    | some declaration => simp [arrangement, exportNames, faithful, and_comm]
    | none =>
      cases source with
      | none =>
        simp [arrangement, exportNames, faithful, faithful_exportEvents found exposes rfl, and_comm]
      | some source => simp [arrangement, exportNames, faithful]
  | exportDefault =>
    have faithful := whole (surroundings root here) fun _ _ => rfl
    simp [arrangement, exportNames, faithful, and_comm]
  | function role id =>
    simp only [arrangement, exportNames, List.not_mem_nil, false_imp_iff, implies_true, true_and,
      faithful_inScopeIf, faithful_append, faithful_nameEvents, regionsAfter_nameEvents,
      faithful_inScope, faithful_declare]
    refine whole _ fun field visited => ?_
    -- only the name lies outside the function, and it is skipped
    rw [around_functionPart rfl, if_neg fun name => visited (by rw [name]; rfl)]
    rfl
  | classDefinition role decorators id superClass body =>
    -- decorators and the parent lie outside the scope of the class
    have decorated := parts (many .decorators (treesOf decorators)) (surroundings root here)
      ((Fields.all_treesOf ..).2 fun _ _ _ => rfl)
    have extended := parts (.optional .superClass (treeOf? superClass)) (surroundings root here)
      ((Fields.all_treeOf? ..).2 fun _ _ _ => rfl)
    have filled := parts (one .body body.tree) (⟨.classBody, here⟩ :: surroundings root here)
      ((Fields.all_one ..).2 fun _ => rfl)
    have named : ∀ inside, PartsFaithful root exposes inside
        (mode.part (.classDefinition role decorators id superClass body)) here
        (.optional .id (id.map Ident.tree)) :=
      fun _ => (Fields.each_ident? ..).2 fun _ _ => trivial
    simp [arrangement, exportNames, Form.fields, partsFaithful_append, decorated, extended, filled,
      named, and_assoc]
  | block =>
    simp only [arrangement, exportNames, List.not_mem_nil, false_imp_iff, implies_true, true_and,
      faithful_inScopeIf]
    refine whole _ fun field _ => ?_
    cases isBody : (programSetting root here).isBody <;>
      simp [Setting.part, Setting.aroundPart, scopeKindsAround, scopeKinds, isBody, surroundings]
  | forStatement =>
    simp [arrangement, exportNames]
    exact whole _ fun _ _ => rfl
  | forInStatement | forOfStatement =>
    simp [arrangement, exportNames, Form.fields]
    rw [parts _ _ fun _ _ _ => rfl]
    simp only [partsFaithful_append, and_comm]
  | switchStatement discriminant cases =>
    have tested := parts (one .discriminant discriminant.tree) (surroundings root here)
      ((Fields.all_one ..).2 fun _ => rfl)
    have chosen := parts (many .cases (treesOf cases)) (⟨.switch, here⟩ :: surroundings root here)
      ((Fields.all_treesOf ..).2 fun _ _ _ => rfl)
    simp [arrangement, exportNames, Form.fields, partsFaithful_append, tested, chosen]
  | _ =>
    simp [arrangement, exportNames]
    exact whole _ fun _ _ => rfl

theorem faithful_visited (mode : Mode) :
    Faithful root exposes (surroundings root here)
        ((Visit.visited mode).events (programSetting root here).isBody here ⟨span, form⟩)
      ↔ (mode.omits form = false →
          ∀ name ∈ exportNames form, exposes (surroundings root here) name)
        ∧ PartsFaithful root exposes ((programSetting root here).part form here)
          ((Visit.visited mode).part form) here form.fields := by
  rw [events_visited_eq]
  cases omitted : mode.omits form with
  | true => simp [PartsFaithful, Visit.part, omitted]
  | false =>
    have part : (Visit.visited mode).part form = mode.part form := by
      funext field
      simp [Visit.part, omitted]
    rw [part, if_neg Bool.false_ne_true, faithful_arrangement found exposes mode]
    simp

end Forms

section Programs

variable {root : Node} {exposes : List Region → String → Prop}

theorem faithful_events (exposed : ∀ place node, root.tree.nodeAt? place = some node →
      ∀ name ∈ exportNames node.form, exposes (surroundings root place) name) (node : Node) :
    ∀ here, root.tree.at? here = some node.tree → ∀ visit : Visit, Faithful root exposes
      (surroundings root here) (visit.events (programSetting root here).isBody here node) := by
  have views := Tree.view_induction (motive := fun tree => ∀ here,
    root.tree.at? here = some tree → ∀ visit : Visit, Faithful root exposes (surroundings root here)
      (visit.events (programSetting root here).isBody here tree.node)) fun span form parts => ?_
  · simpa using views node.tree node.isView_tree
  intro here found visit
  rw [Node.node_tree]
  cases visit with
  | skipped => trivial
  | exported => trivial
  | visited mode =>
    refine (faithful_visited found exposes mode).2
      ⟨fun _ => exposed here _ (nodeAt?_here found), ?_⟩
    rintro ⟨step, child⟩ listed
    rw [Node.tree] at parts
    have faithful := parts _ listed _ (at?_child found listed)
      ((Visit.visited mode).part form step.field)
    rwa [surroundings, programSetting_cons (nodeAt?_here found)] at faithful

theorem faithful_at (whole : Faithful root exposes [] (programEvents root)) {place : Path}
    {node : Node} (found : root.tree.nodeAt? place = some node) :
    Faithful root exposes (surroundings root place)
      ((visitAt root.tree (.visited .evaluate) place).events (programSetting root place).isBody
        place node) := by
  induction place generalizing node with
  | nil =>
    obtain rfl : root = node := by simpa [Tree.nodeAt?, Tree.at?] using found
    exact whole
  | cons step parent ih =>
    obtain ⟨span, form, foundParent, child, listed, rfl⟩ :=
      Tree.exists_form_of_nodeAt? root.isView_tree found
    have foundTree := Tree.at?_of_nodeAt? root.isView_tree foundParent
    have parts : PartsFaithful root exposes ((programSetting root parent).part form parent)
        ((visitAt root.tree (.visited .evaluate) parent).part form) parent form.fields := by
      have faithful := ih foundParent
      revert faithful
      cases visitAt root.tree (.visited .evaluate) parent with
      | skipped => exact fun _ _ _ => trivial
      | visited mode =>
        exact fun faithful => ((faithful_visited foundTree exposes mode).1 faithful).2
      | exported =>
        intro _
        cases form with
        | exportSpecifier binding exported =>
          have stands : surroundings root (⟨.binding, 0⟩ :: parent)
              = (programSetting root parent).aroundPart (.exportSpecifier binding exported) parent
                .binding := surroundings_cons foundParent ⟨.binding, 0⟩
          simpa [PartsFaithful, Form.fields, Visit.part, Visit.events, Ident.node, scopeEvents,
            formEvents, Mode.identifier, Faithful, Event.StandsIn, Setting.part] using stands
        | _ => exact fun _ _ => trivial
    have faithful := parts _ listed
    rwa [surroundings, programSetting_cons foundParent, visitAt, foundParent]

/-- Every event of a program is met in the regions that are around its place. -/
theorem faithful_programEvents (exposed : ∀ place node, root.tree.nodeAt? place = some node →
      ∀ name ∈ exportNames node.form, exposes (surroundings root place) name) :
    Faithful root exposes [] (programEvents root) :=
  faithful_events exposed root [] rfl (.visited .evaluate)

end Programs

/-! ## Tables -/

/-- Every reference of a table is made in the scope of the regions around it. -/
def Table.Placed (root : Node) (table : Table) : Prop :=
  ∀ reference ∈ table.references, table.scopes.stack reference.scope
    = surroundings root reference.occurrence.place ++ [.global]

def Table.Exposes (table : Table) (around : List Region) (name : String) : Prop :=
  ∃ scope, (scope, name) ∈ table.exports ∧ table.scopes.stack scope = around ++ [.global]

namespace Table

section Steps

variable {root : Node} {table : Table} {around : List Region} {done : List Effect}
  (records : table.Records around done)

include records

theorem stack_step {number : Nat} (known : number < table.scopes.length) (event : Event) :
    (table.step event).scopes.stack number = table.scopes.stack number := by
  cases event with
  | enter kind block => exact Scopes.stack_append records.scopes.formed known _
  | declare hoisted name kind definition => rw [step, Scopes.stack_declare]
  | _ => rfl

theorem placed_step {exposes : List Region → String → Prop} (placed : table.Placed root)
    {event : Event} (stands : event.StandsIn root exposes around) :
    (table.step event).Placed root := by
  intro reference member
  have old : reference ∈ table.references → (table.step event).scopes.stack reference.scope
      = surroundings root reference.occurrence.place ++ [.global] := fun member =>
    (stack_step records (records.formed.references _ member) event).trans (placed _ member)
  cases event with
  | refer occurrence access =>
    rcases List.mem_append.1 member with earlier | new
    · exact old earlier
    · rw [List.mem_singleton.1 new]
      exact records.inside.trans (congrArg (· ++ _) stands.symm)
  | _ => exact old member

theorem exposes_step (event : Event) (regions : List Region) (name : String) :
    (table.step event).Exposes regions name
      ↔ table.Exposes regions name ∨ event = .exported name ∧ regions = around := by
  have kept : ∀ entry ∈ table.exports, (table.step event).scopes.stack entry.1
      = table.scopes.stack entry.1 := fun entry member =>
    stack_step records (records.formed.exports entry member) event
  cases event with
  | exported other =>
    constructor
    · rintro ⟨scope, listed, stack⟩
      rcases List.mem_append.1 listed with old | new
      · exact .inl ⟨scope, old, stack⟩
      · cases List.mem_singleton.1 new
        exact .inr ⟨rfl, List.append_cancel_right (stack.symm.trans records.inside)⟩
    · rintro (⟨scope, old, stack⟩ | ⟨same, rfl⟩)
      · exact ⟨scope, List.mem_append_left _ old, stack⟩
      · cases same
        exact ⟨table.current, List.mem_append_right _ (.head _), records.inside⟩
  | _ =>
    rw [or_iff_left fun exports => nomatch exports.1]
    constructor
    · rintro ⟨scope, listed, stack⟩
      exact ⟨scope, listed, (kept _ listed).symm.trans stack⟩
    · rintro ⟨scope, listed, stack⟩
      exact ⟨scope, listed, (kept _ listed).trans stack⟩

end Steps

section Runs

variable {root : Node} {table : Table} {around : List Region} {done : List Effect}
  (records : table.Records around done) {events : List Event}

include records

theorem placed_foldl_step {exposes : List Region → String → Prop} (placed : table.Placed root)
    (faithful : Faithful root exposes around events) : (events.foldl step table).Placed root := by
  induction events generalizing table around done with
  | nil => exact placed
  | cons event rest ih =>
    exact ih (records_step records event) (placed_step records placed faithful.1) faithful.2

theorem exposes_foldl_step (refers : Faithful root (fun _ _ => True) around events)
    (exposes : List Region → String → Prop) :
    (∀ regions name, (events.foldl step table).Exposes regions name → exposes regions name)
      ↔ (∀ regions name, table.Exposes regions name → exposes regions name)
        ∧ Faithful root exposes around events := by
  induction events generalizing table around done with
  | nil => simp
  | cons event rest ih =>
    have next : (∀ regions name, (table.step event).Exposes regions name → exposes regions name)
        ↔ (∀ regions name, table.Exposes regions name → exposes regions name)
          ∧ event.StandsIn root exposes around := by
      simp only [exposes_step records, or_imp, forall_and, and_imp]
      refine and_congr_right' ?_
      cases event with
      | exported name =>
        exact ⟨fun each => each _ _ rfl rfl, fun exposed _ _ same around =>
          around ▸ Event.exported.inj same ▸ exposed⟩
      | refer => exact ⟨fun _ => refers.1, fun _ _ _ => nofun⟩
      | _ => exact ⟨fun _ => trivial, fun _ _ _ => nofun⟩
    rw [List.foldl_cons, ih (records_step records event) refers.2, next, and_assoc]
    rfl

end Runs

end Table

theorem refers_programEvents (root : Node) :
    Faithful root (fun _ _ => True) [] (programEvents root) :=
  faithful_programEvents fun _ _ _ _ _ => trivial

theorem placed_programTable (root : Node) : (programTable root).Placed root :=
  Table.placed_foldl_step Table.records_empty nofun (refers_programEvents root)

theorem stack_resolveInTurn (globals : List String) (scopes : Scopes)
    (references : List Reference) :
    (resolveInTurn globals scopes references).1.length = scopes.length
      ∧ (resolveInTurn globals scopes references).1.stack = scopes.stack := by
  refine resolveInTurn_keeps globals (fun later name kept => ?_) ⟨rfl, rfl⟩ references
  exact ⟨(Scopes.length_declare ..).trans kept.1, (Scopes.stack_declare ..).trans kept.2⟩

/-- **Every reference is made in the scope of the regions around it.** -/
theorem stack_reference {root : Node} (globals : List String) {reference : Reference}
    (member : reference ∈ (programTable root).references) :
    reference.scope < (analyze root globals).scopes.length
      ∧ (analyze root globals).scopes.stack reference.scope
        = surroundings root reference.occurrence.place ++ [.global] := by
  obtain ⟨length, stack⟩ :=
    stack_resolveInTurn globals (programTable root).scopes (programTable root).references
  have known := (Table.wellFormed_ofEvents (programEvents root)).references reference member
  exact ⟨known.trans_eq length.symm,
    (congrFun stack _).trans (placed_programTable root reference member)⟩

theorem lookup?_of_mem_resolutions {root : Node} {globals : List String} {resolution : Resolution}
    (member : resolution ∈ (analyze root globals).resolutions) :
    resolution.reference ∈ (programTable root).references
      ∧ (analyze root globals).scopes.lookup? resolution.reference.scope resolution.reference.name
        = resolution.scope? := by
  rw [resolutions_analyze] at member
  obtain ⟨reference, listed, rfl⟩ := List.mem_map.1 member
  have formed := Table.wellFormed_ofEvents (programEvents root)
  exact ⟨listed, lookup?_resolveInTurn_of_mem globals formed.scopes formed.references listed⟩

end TemplateLint.Scope
