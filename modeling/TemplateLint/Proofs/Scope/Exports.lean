import TemplateLint.Proofs.Scope.Hoisting
import TemplateLint.Proofs.Scope.References

/-!
# Exported variables

An export is kept as a name with the scope it is met in, and its variable is looked up once all
scopes are known (`mem_exported_iff`). A statement introduces the identifiers that it declares, at
any depth (`ExportedBy`), or specifies names that are declared elsewhere (`SpecifiedBy`). **These
are the exported variables** (`exported_iff_introduced_or_specified`), with two exceptions
(`Analysis.Mistakes`): the name of an expression, and a variable that hides one that is hoisted.
-/

namespace TemplateLint.Scope

open TemplateLint.Syntax

variable {root : Node} {form : Form} {id : VariableId} {occurrence : Occurrence}

/-! ## Exported names -/

theorem exists_visited_of_exports (operand : root.Operand) {place : Path} {span : Span}
    (found : root.tree.nodeAt? place = some ⟨span, form⟩) (exports : exportNames form ≠ []) :
    ∃ mode, visitAt root.tree (.visited .evaluate) place = .visited mode
      ∧ mode.omits form = false := by
  have met := meets_visitAt operand found
  cases visit : visitAt root.tree (.visited .evaluate) place with
  | visited mode =>
    rw [visit] at met
    exact ⟨mode, rfl, omits_of_meets met⟩
  | skipped | exported =>
    rw [visit] at met
    cases form with
    | exportNamed | exportDefault => simp [Meets, Inert, Node.isExportSpecifier] at met
    | _ => exact absurd rfl exports

theorem exposes_programTable_iff (operand : root.Operand) {around : List Region} {name : String} :
    (programTable root).Exposes around name ↔ ∃ place node, root.tree.nodeAt? place = some node
      ∧ name ∈ exportNames node.form ∧ surroundings root place = around := by
  have run := Table.exposes_foldl_step Table.records_empty (refers_programEvents root)
  constructor
  · refine (run fun around name => ∃ place node, root.tree.nodeAt? place = some node
      ∧ name ∈ exportNames node.form ∧ surroundings root place = around).2 ⟨?_, ?_⟩ around name
    · rintro _ _ ⟨_, listed, _⟩
      cases listed
    · exact faithful_programEvents fun place node found name member =>
        ⟨place, node, found, member, rfl⟩
  · rintro ⟨place, ⟨span, form⟩, found, member, rfl⟩
    have whole := ((run (programTable root).Exposes).1 fun _ _ exposed => exposed).2
    have faithful := faithful_at whole found
    obtain ⟨mode, visit, visits⟩ :=
      exists_visited_of_exports operand found (List.ne_nil_of_mem member)
    rw [visit] at faithful
    have foundTree := Tree.at?_of_nodeAt? root.isView_tree found
    exact ((faithful_visited foundTree _ mode).1 faithful).1 visits name member

/-- The variable that a name denotes at a place. -/
def Analysis.Sees (analysis : Analysis) (root : Node) (place : Path) (id : VariableId) : Prop :=
  ∃ scope < analysis.scopes.length, analysis.scopes.stack scope
      = surroundings root place ++ [.global]
    ∧ analysis.scopes.lookup? scope id.name = some id.scope

/-- A variable is exported exactly if some statement exports its name where it is seen. -/
theorem mem_exported_iff (operand : root.Operand) (globals : List String) :
    id ∈ (analyze root globals).exported ↔ ∃ statement form, formAt? root statement = some form
      ∧ id.name ∈ exportNames form ∧ (analyze root globals).Sees root statement id := by
  have follows := follows_analyze operand.1 globals
  have formed := Table.wellFormed_ofEvents (programEvents root)
  -- resolving references declares known globals, and opens no scopes
  obtain ⟨length, stack⟩ : (analyze root globals).scopes.length = (programTable root).scopes.length
      ∧ (analyze root globals).scopes.stack = (programTable root).scopes.stack :=
    stack_resolveInTurn globals (programTable root).scopes (programTable root).references
  constructor
  · intro member
    obtain ⟨⟨scope, name⟩, listed, answer⟩ := List.mem_filterMap.1 member
    obtain ⟨home, seen, rfl⟩ := Option.map_eq_some_iff.1 answer
    have known := (formed.exports _ listed).trans_eq length.symm
    obtain ⟨around, inside⟩ : ∃ around, (analyze root globals).scopes.stack scope
        = around ++ [.global] := by
      rcases (follows.exists_stack_iff _).1 ⟨scope, known, rfl⟩ with global | ⟨_, _, _, _, same⟩
      · exact ⟨[], global⟩
      · exact ⟨_, same⟩
    obtain ⟨place, node, found, exports, rfl⟩ := (exposes_programTable_iff operand).1
      ⟨scope, listed, (congrFun stack scope).symm.trans inside⟩
    exact ⟨place, node.form, congrArg (Option.map Node.form) found, exports, scope, known, inside,
      seen⟩
  · rintro ⟨place, form, above, exports, scope, known, inside, seen⟩
    obtain ⟨node, found, rfl⟩ := Option.map_eq_some_iff.1 above
    obtain ⟨other, listed, stackOther⟩ :=
      (exposes_programTable_iff operand).2 ⟨place, node, found, exports, rfl⟩
    obtain rfl : other = scope := follows.stack_inj
      ((formed.exports _ listed).trans_eq length.symm) known
      (((congrFun stack other).trans stackOther).trans inside.symm)
    exact List.mem_filterMap.2 ⟨_, listed, Option.map_eq_some_iff.2 ⟨_, seen, rfl⟩⟩

/-! ## Exported declarations -/

/-- A part of a pattern that holds identifiers which the pattern binds. -/
def passes (field : Field) : Form → Bool
  | .arrayPattern _ | .objectPattern _ | .restElement _ => true
  | .assignmentPattern .. => field == .left
  | .property .. => field == .value
  | _ => false

/-- What an export statement declares. -/
def declarationOf? : Form → Option Node
  | .exportNamed declaration _ _ => declaration
  | .exportDefault declaration => some declaration
  | _ => none

def declaredId? : Node → Option Ident
  | ⟨_, .function .declaration id ..⟩ | ⟨_, .classDefinition .declaration _ id ..⟩ => id
  | _ => none

/-- A node is declared by an export statement: it is the target of a declaration of variables, or
a part of such a target, or the name of a function or class. -/
inductive ExportedBy (root : Node) (statement : Path) : Path → Node → Prop where
  | target {span inner : Span} {declarations specifiers : List Node} {kind : String} {index : Nat}
      {target : Node} {init source : Option Node}
      (exports : formAt? root statement = some (.exportNamed
        (some ⟨span, .variableDeclaration declarations kind⟩) specifiers source))
      (listed : declarations[index]? = some ⟨inner, .variableDeclarator target init⟩) :
      ExportedBy root statement
        (⟨.id, 0⟩ :: ⟨.declarations, index⟩ :: statement.child .declaration) target
  | name {form : Form} {declaration : Node} {id : Ident}
      (exports : formAt? root statement = some form)
      (declares : declarationOf? form = some declaration)
      (named : declaredId? declaration = some id) :
      ExportedBy root statement ((statement.child .declaration).child .id) id.node
  | part {place : Path} {span : Span} {form : Form} {step : Step} {child : Tree}
      (outer : ExportedBy root statement place ⟨span, form⟩)
      (listed : (step, child) ∈ form.fields.children) (inside : passes step.field form = true) :
      ExportedBy root statement (step :: place) child.node

/-- An identifier is the local name of a specifier of a statement that exports from the module
itself. -/
inductive SpecifiedBy (root : Node) (statement : Path) : Occurrence → Prop where
  | mk {specifiers : List Node} {index : Nat} {span : Span} {binding exported : Ident}
      (exports : formAt? root statement = some (.exportNamed none specifiers none))
      (listed : specifiers[index]? = some ⟨span, .exportSpecifier binding exported⟩) :
      SpecifiedBy root statement ⟨(statement.item .specifiers index).child .binding, binding⟩

theorem mem_boundIdentsList {nodes : List Node} {id : Ident} :
    id ∈ boundIdentsList nodes ↔ ∃ node ∈ nodes, id ∈ boundIdents node := by
  induction nodes with
  | nil => simp [boundIdentsList]
  | cons node rest ih => simp [boundIdentsList, ih]

theorem mem_boundIdentsSparse {nodes : List (Option Node)} {id : Ident} :
    id ∈ boundIdentsSparse nodes ↔ ∃ node, some node ∈ nodes ∧ id ∈ boundIdents node := by
  induction nodes with
  | nil => simp [boundIdentsSparse]
  | cons node? rest ih => cases node? <;> simp [boundIdentsSparse, ih, or_and_right, exists_or]

theorem forall_boundIdents_iff (span : Span) (form : Form) (holds : Ident → Prop) :
    (∀ id ∈ boundIdents ⟨span, form⟩, holds id)
      ↔ (∀ name, form = .identifier name → holds ⟨span, name⟩)
        ∧ form.fields.All fun field tree =>
          passes field form = true → ∀ id ∈ boundIdents tree.node, holds id := by
  cases form with
  | identifier name => simp [boundIdents, Form.fields]
  | arrayPattern elements =>
    simp [boundIdents, Form.fields, passes, mem_boundIdentsSparse]
    grind
  | objectPattern properties =>
    simp [boundIdents, Form.fields, passes, mem_boundIdentsList]
    grind
  | assignmentPattern | restElement | property => simp [boundIdents, Form.fields, passes]
  | _ =>
    exact ⟨fun _ => ⟨nofun, fun _ _ inside => nomatch inside⟩, fun _ id member => nomatch member⟩

/-- The declared variables belong to the function around the statement. -/
def isHoisted : Form → Bool
  | .variableDeclaration _ kind => kind == "var"
  | _ => false

def expressionName? : Node → Option String
  | ⟨_, .function .expression id ..⟩ | ⟨_, .classDefinition .expression _ id ..⟩ =>
    id.map Ident.name
  | _ => none

theorem each_nodeAt? {place : Path} (above : formAt? root place = some form) :
    form.fields.Each fun step tree => root.tree.nodeAt? (step :: place) = some tree.node := by
  obtain ⟨⟨span, form⟩, found, rfl⟩ := Option.map_eq_some_iff.1 above
  intro child listed
  have below := at?_child (Tree.at?_of_nodeAt? root.isView_tree found) listed
  rw [Tree.nodeAt?, below]
  rfl

section Statements

variable {root : Node} {statement : Path}

theorem of_declarationOf? {declaration : Node} (exports : formAt? root statement = some form)
    (declares : declarationOf? form = some declaration) :
    root.tree.nodeAt? (statement.child .declaration) = some declaration
      ∧ surroundings root (statement.child .declaration) = surroundings root statement := by
  have children := each_nodeAt? exports
  obtain ⟨⟨span, form⟩, found, rfl⟩ := Option.map_eq_some_iff.1 exports
  have around := surroundings_cons found ⟨.declaration, 0⟩
  cases form with
  | exportNamed =>
    obtain rfl := declares
    simp only [Node.form, Form.fields, Fields.each_append, Fields.each_treeOf?,
      Node.node_tree] at children
    exact ⟨children.1.1 declaration rfl, around⟩
  | exportDefault =>
    obtain rfl := Option.some.inj declares
    simp only [Node.form, Form.fields, Fields.each_one, Node.node_tree] at children
    exact ⟨children, around⟩
  | _ => cases declares

variable {place : Path} {node : Node} (exported : ExportedBy root statement place node)

include exported

theorem ExportedBy.exists_identifier :
    ∀ id ∈ boundIdents node, ∃ inner, ExportedBy root statement inner id.node := by
  have views := Tree.view_induction (motive := fun tree => ∀ place,
    ExportedBy root statement place tree.node →
      ∀ id ∈ boundIdents tree.node, ∃ inner, ExportedBy root statement inner id.node)
    fun span form parts => ?_
  · have below := views node.tree node.isView_tree place
    rw [Node.node_tree] at below
    exact below exported
  intro place exported
  refine (forall_boundIdents_iff span form _).2 ⟨?_, ?_⟩
  · rintro name rfl
    exact ⟨place, exported⟩
  · exact fun child listed inside => parts _ listed _ (.part exported listed inside)

theorem ExportedBy.mem_place : ⟨.declaration, 0⟩ ∈ place := by
  induction exported with
  | target | name => simp [Path.child]
  | part outer listed inside ih => exact List.mem_cons_of_mem _ ih

theorem ExportedBy.mem_exportNames : ∃ form, formAt? root statement = some form
    ∧ ∀ id ∈ boundIdents node, id.name ∈ exportNames form := by
  induction exported with
  | target exports listed =>
    refine ⟨_, exports, fun id member => ?_⟩
    exact List.mem_flatMap.2 ⟨_, List.mem_of_getElem? listed, List.mem_map_of_mem member⟩
  | @name form declaration id exports declares named =>
    refine ⟨form, exports, fun other member => ?_⟩
    obtain rfl := List.mem_singleton.1 member
    unfold declaredId? at named
    split at named
    case h_3 => cases named
    all_goals
      subst named
      cases form with
      | exportNamed => obtain rfl := declares; exact List.mem_singleton_self _
      | exportDefault => obtain rfl := Option.some.inj declares; exact List.mem_singleton_self _
      | _ => cases declares
  | part outer listed inside ih =>
    obtain ⟨form, exports, names⟩ := ih
    exact ⟨form, exports, ((forall_boundIdents_iff _ _ _).1 names).2 _ listed inside⟩

theorem ExportedBy.binds :
    root.tree.nodeAt? place = some node ∧ ∃ rest, (programSetting root place).binds
        = Region.target (surroundings root statement)
          ((formAt? root (statement.child .declaration)).any isHoisted) :: rest
      ∧ ∀ region ∈ rest, region.block = statement.child .declaration := by
  induction exported with
  | target exports listed =>
    obtain ⟨found, around⟩ := of_declarationOf? exports rfl
    have declarator := each_nodeAt? (congrArg (Option.map Node.form) found)
    simp only [Node.form, Form.fields, Fields.each_append, Fields.each_treesOf,
      Node.node_tree] at declarator
    have listed := declarator.1 _ (List.mk_mem_zipIdx_iff_getElem?.2 listed)
    have target := each_nodeAt? (congrArg (Option.map Node.form) listed)
    simp only [Node.form, Form.fields, Fields.each_append, Fields.each_one,
      Node.node_tree] at target
    refine ⟨target.1, [], ?_, by simp⟩
    rw [programSetting_cons listed, programSetting_cons found, formAt?, found, ← around]
    rfl
  | name exports declares named =>
    obtain ⟨found, around⟩ := of_declarationOf? exports declares
    have children := each_nodeAt? (congrArg (Option.map Node.form) found)
    have binds := congrArg Setting.binds (programSetting_cons found ⟨.id, 0⟩)
    unfold declaredId? at named
    split at named
    case h_3 => cases named
    all_goals
      subst named
      simp only [Node.form, Form.fields, Fields.each_append, Option.map_some,
        Fields.each_some] at children
      rw [formAt?, found, ← around]
    · exact ⟨children.1.1.1.1, [], binds, by simp⟩
    · exact ⟨children.1.1.2, [_], binds, by simp⟩
  | @part place span form step child outer listed inside ih =>
    obtain ⟨found, rest, binds, blocks⟩ := ih
    refine ⟨each_nodeAt? (congrArg (Option.map Node.form) found) _ listed, rest, ?_, blocks⟩
    rw [programSetting_cons found, ← binds]
    cases form with
    | arrayPattern | objectPattern | restElement => rfl
    | assignmentPattern | property =>
      exact if_pos (beq_iff_eq.1 inside)
    | _ => cases inside

omit exported in
theorem exists_of_mem_exportNames {name : String}
    (exports : formAt? root statement = some form) (member : name ∈ exportNames form) :
    (∃ occurrence : Occurrence, ExportedBy root statement occurrence.place occurrence.id.node
        ∧ occurrence.id.name = name)
      ∨ (∃ occurrence, SpecifiedBy root statement occurrence ∧ occurrence.id.name = name)
      ∨ (declarationOf? form).bind expressionName? = some name := by
  unfold exportNames at member
  split at member
  next declaration specifiers source =>
    unfold declaredNames at member
    split at member
    · obtain ⟨declarator, listed, member⟩ := List.mem_flatMap.1 member
      obtain ⟨index, listed⟩ := List.mem_iff_getElem?.1 listed
      split at member
      · obtain ⟨id, bound, rfl⟩ := List.mem_map.1 member
        obtain ⟨place, declared⟩ := (ExportedBy.target exports listed).exists_identifier id bound
        exact .inl ⟨⟨place, id⟩, declared, rfl⟩
      · cases member
    case h_4 => cases member
    all_goals
      obtain rfl := List.mem_singleton.1 member
      cases ‹Role› with
      | declaration => exact .inl ⟨⟨_, _⟩, .name exports rfl rfl, rfl⟩
      | expression => exact .inr (.inr rfl)
  next specifiers =>
    obtain ⟨specifier, listed, named⟩ := List.mem_filterMap.1 member
    obtain ⟨index, listed⟩ := List.mem_iff_getElem?.1 listed
    unfold specifiedName? at named
    split at named
    · cases named
      exact .inr (.inl ⟨_, .mk exports listed, rfl⟩)
    · cases named
  next declaration =>
    unfold defaultExportName? at member
    split at member
    · obtain ⟨id, rfl, rfl⟩ := Option.map_eq_some_iff.1 (Option.mem_toList.1 member)
      exact .inl ⟨⟨_, id⟩, .name exports rfl rfl, rfl⟩
    · obtain ⟨id, rfl, rfl⟩ := Option.map_eq_some_iff.1 (Option.mem_toList.1 member)
      cases ‹Role› with
      | declaration => exact .inl ⟨⟨_, id⟩, .name exports rfl rfl, rfl⟩
      | expression => exact .inr (.inr rfl)
    · cases member
  next => cases member

end Statements

/-! ## Exported variables -/

namespace Analysis

/-- A statement introduces a variable that it exports: the variable is around the statement, and
an identifier that the statement declares is one of its definitions. -/
structure Introduces (analysis : Analysis) (root : Node) (statement : Path)
    (occurrence : Occurrence) (id : VariableId) : Prop where
  declared : ExportedBy root statement occurrence.place occurrence.id.node
  defines : ∃ scope, analysis.scopes[id.scope]? = some scope ∧ ∃ binding ∈ scope.locals,
    binding.name = id.name ∧ occurrence ∈ binding.definitions
  around : analysis.scopes.regionAt id.scope ∈ surroundings root statement ++ [.global]

/-- A specifier of the statement refers to the variable. -/
def Specifies (analysis : Analysis) (root : Node) (statement : Path) (id : VariableId) : Prop :=
  ∃ resolution ∈ analysis.resolutions, SpecifiedBy root statement resolution.reference.occurrence
    ∧ resolution.reference.name = id.name ∧ resolution.scope? = some id.scope

/-- A statement exports a variable that it neither introduces nor specifies: around the statement
the variable has the name of an expression that is exported, or of a variable further out that
the statement introduces. -/
def Mistakes (analysis : Analysis) (root : Node) (statement : Path) (id : VariableId) : Prop :=
  analysis.Sees root statement id
    ∧ ((∃ form, formAt? root statement = some form ∧ id.name ∈ exportNames form
        ∧ (declarationOf? form).bind expressionName? = some id.name)
      ∨ ∃ occurrence other, other ≠ id ∧ other.name = id.name
        ∧ analysis.Introduces root statement occurrence other)

end Analysis

theorem target_eq_innermost {around : List Region} {hoisted : Bool}
    (near : hoisted = true → (Region.innermost around).kind.hoists = true) :
    Region.target around hoisted = Region.innermost around := by
  cases hoisted with
  | false => rfl
  | true =>
    cases around with
    | nil => rfl
    | cons first rest =>
      have hoists : first.kind.hoists = true := near rfl
      simp [Region.target, Region.hoisting, Region.innermost, hoists]

section Programs

variable {root : Node} (operand : root.Operand) (globals : List String) {statement : Path}

theorem SpecifiedBy.mem_exportNames (specified : SpecifiedBy root statement occurrence) :
    ∃ form, formAt? root statement = some form ∧ occurrence.id.name ∈ exportNames form := by
  obtain ⟨exports, listed⟩ := specified
  exact ⟨_, exports, List.mem_filterMap.2 ⟨_, List.mem_of_getElem? listed, rfl⟩⟩

include operand

theorem SpecifiedBy.exists_resolution (specified : SpecifiedBy root statement occurrence) :
    surroundings root occurrence.place = surroundings root statement
      ∧ ∃ resolution ∈ (analyze root globals).resolutions,
        resolution.reference.occurrence = occurrence := by
  obtain ⟨form, exports, member⟩ := specified.mem_exportNames
  obtain @⟨specifiers, index, inner, binding, exported, exports', listed⟩ := specified
  obtain rfl := Option.some.inj (exports.symm.trans exports')
  obtain ⟨⟨span, form⟩, found, rfl⟩ := Option.map_eq_some_iff.1 exports
  have children := each_nodeAt? exports
  simp only [Form.fields, Fields.each_append, Fields.each_treesOf, Node.node_tree] at children
  have specifier : root.tree.nodeAt? (statement.item .specifiers index)
      = some ⟨inner, .exportSpecifier binding exported⟩ :=
    children.1.2 _ (List.mk_mem_zipIdx_iff_getElem?.2 listed)
  have parts := each_nodeAt? (congrArg (Option.map Node.form) specifier)
  simp only [Node.form, Form.fields, Fields.each_append, Fields.each_one] at parts
  refine ⟨(surroundings_cons specifier ⟨.binding, 0⟩).trans
    (surroundings_cons found ⟨.specifiers, index⟩), ?_⟩
  obtain ⟨mode, visit, visits⟩ :=
    exists_visited_of_exports operand found (List.ne_nil_of_mem member)
  have used : (visitAt root.tree (.visited .evaluate)
      ((statement.item .specifiers index).child .binding)).access? = some .read := by
    rw [Path.child, visitAt, specifier, Path.item, visitAt, found, visit]
    simp [Visit.part, Node.form, visits, Mode.part, Visit.access?]
  obtain ⟨reference, alone, same, _⟩ := referencesAt_eq_singleton globals parts.1 used
  have here : reference ∈ (analyze root globals).references :=
    (List.mem_filter.1 (alone ▸ List.mem_singleton_self reference)).1
  obtain ⟨resolution, member, rfl⟩ := List.mem_map.1 here
  exact ⟨resolution, member, same⟩

theorem specifies_iff :
    (analyze root globals).Specifies root statement id
      ↔ (analyze root globals).Sees root statement id
        ∧ ∃ occurrence, SpecifiedBy root statement occurrence ∧ occurrence.id.name = id.name := by
  have follows := follows_analyze operand.1 globals
  constructor
  · rintro ⟨resolution, member, specified, named, resolved⟩
    obtain ⟨listed, answer⟩ := lookup?_of_mem_resolutions member
    obtain ⟨known, stack⟩ := stack_reference globals listed
    rw [(specified.exists_resolution operand globals).1] at stack
    rw [resolved, named] at answer
    exact ⟨⟨_, known, stack, answer⟩, _, specified, named⟩
  · rintro ⟨⟨scope, known, stack, seen⟩, occurrence, specified, named⟩
    obtain ⟨around, resolution, member, rfl⟩ := specified.exists_resolution operand globals
    obtain ⟨listed, answer⟩ := lookup?_of_mem_resolutions member
    obtain ⟨knownReference, stackReference⟩ := stack_reference globals listed
    obtain rfl := follows.stack_inj known knownReference
      (stack.trans (around ▸ stackReference.symm))
    refine ⟨resolution, member, specified, named, ?_⟩
    rw [← answer, ← seen, ← named]
    rfl

theorem Analysis.Introduces.name_and_region
    (introduces : (analyze root globals).Introduces root statement occurrence id) :
    id.name = occurrence.id.name ∧ id.scope < (analyze root globals).scopes.length
      ∧ (analyze root globals).scopes.regionAt id.scope
        = Region.target (surroundings root statement)
          ((formAt? root (statement.child .declaration)).any isHoisted) := by
  have follows := follows_analyze operand.1 globals
  obtain ⟨declared, ⟨scope, found, binding, member, named, defines⟩, around⟩ := introduces
  rw [follows.declared.definitions scope (List.mem_of_getElem? found) binding member] at defines
  obtain ⟨bound, same⟩ := List.mem_filter.1 defines
  refine ⟨named.symm.trans (of_decide_eq_true same).symm, (List.getElem?_eq_some_iff.1 found).1, ?_⟩
  obtain ⟨_, rest, binds, blocks⟩ := declared.binds
  have bound := (mem_binders_iff.1 bound).2
  rw [binds, ← Scopes.regionAt_of_getElem? found] at bound
  refine (List.mem_cons.1 bound).resolve_right fun inside => ?_
  -- The declared class is not around the statement.
  have deeper := congrArg List.length (blocks _ inside)
  rcases List.mem_append.1 around with around | global
  · have below := below_settingAt Setting.below_whole root.tree statement _ around
    simp only [List.append_nil, deeper, Path.child, List.length_cons] at below
    omega
  · rw [List.mem_singleton.1 global] at deeper
    simp [Path.child, Region.global] at deeper

theorem existsUnique_introduces
    (declared : ExportedBy root statement occurrence.place occurrence.id.node) :
    ∃! id, (analyze root globals).Introduces root statement occurrence id := by
  have follows := follows_analyze operand.1 globals
  obtain ⟨found, rest, binds, _⟩ := declared.binds
  obtain ⟨scope, member, region, binding, inLocals, named, defines⟩ :=
    follows.declared.bound occurrence.place occurrence.id found _ (binds ▸ List.mem_cons_self)
  obtain ⟨number, foundScope⟩ := List.mem_iff_getElem?.1 member
  have introduces : (analyze root globals).Introduces root statement occurrence
      ⟨number, occurrence.id.name⟩ := by
    refine ⟨declared, ⟨scope, foundScope, binding, inLocals, named, defines⟩, ?_⟩
    rw [Scopes.regionAt_of_getElem? foundScope, region, List.mem_append, List.mem_singleton]
    exact Setting.target_mem_or _ _
  refine ⟨_, introduces, fun other introducesOther => ?_⟩
  obtain ⟨name, known, region⟩ := introduces.name_and_region operand globals
  obtain ⟨nameOther, knownOther, regionOther⟩ := introducesOther.name_and_region operand globals
  have scope := follows.regionAt_inj knownOther known (regionOther.trans region.symm)
  cases other
  simp_all

/-- An introduced variable is seen from its statement, unless it is hoisted out of the innermost
scope there. -/
theorem Analysis.Introduces.sees
    (introduces : (analyze root globals).Introduces root statement occurrence id)
    (near : (formAt? root (statement.child .declaration)).any isHoisted = true →
      (Region.innermost (surroundings root statement)).kind.hoists = true) :
    (analyze root globals).Sees root statement id := by
  have follows := follows_analyze operand.1 globals
  obtain ⟨number, known, stack⟩ := follows.exists_stack_surroundings statement
  obtain ⟨_, knownOwn, region⟩ := introduces.name_and_region operand globals
  obtain ⟨scope, found, binding, member, named, _⟩ := introduces.defines
  rw [target_eq_innermost near, ← Scopes.regionAt_of_stack stack] at region
  obtain rfl := follows.regionAt_inj knownOwn known region
  exact ⟨_, known, stack, List.find?_cons_of_pos
    ((Scopes.isSome_find?_iff _ _ _).2 ⟨scope, found, List.mem_map.2 ⟨binding, member, named⟩⟩)⟩

end Programs

/-- **The exported variables are those that export statements introduce, those to which the local
names of specifiers resolve, and those that are mistaken for the former.** -/
theorem exported_iff_introduced_or_specified {source : String} {root : Node}
    (parsed : Grammar.parse source = .ok root) (globals : List String) :
    (∀ id, id ∈ (analyze root globals).exported
      ↔ (∃ statement occurrence, (analyze root globals).Introduces root statement occurrence id
          ∧ (analyze root globals).Sees root statement id)
        ∨ (∃ statement, (analyze root globals).Specifies root statement id)
        ∨ ∃ statement, (analyze root globals).Mistakes root statement id)
    ∧ (∀ statement occurrence id,
        (analyze root globals).Introduces root statement occurrence id →
        ((formAt? root (statement.child .declaration)).any isHoisted = true →
          (Region.innermost (surroundings root statement)).kind.hoists = true) →
        id ∈ (analyze root globals).exported)
    ∧ ∀ statement (occurrence : Occurrence),
        ExportedBy root statement occurrence.place occurrence.id.node →
        ∃! id, (analyze root globals).Introduces root statement occurrence id := by
  have operand := Grammar.operand_of_parse parsed
  have exported_of_introduces : ∀ {statement occurrence other id},
      (analyze root globals).Introduces root statement occurrence other → other.name = id.name →
      (analyze root globals).Sees root statement id → id ∈ (analyze root globals).exported := by
    intro statement occurrence other id introduces named sees
    obtain ⟨form, above, exports⟩ := introduces.declared.mem_exportNames
    have name := (introduces.name_and_region operand globals).1.symm.trans named
    exact (mem_exported_iff operand globals).2 ⟨statement, form, above,
      name ▸ exports occurrence.id (List.mem_singleton_self _), sees⟩
  refine ⟨fun id => ⟨fun member => ?_, ?_⟩, ?_, fun _ _ => existsUnique_introduces operand globals⟩
  · obtain ⟨statement, form, above, exports, sees⟩ := (mem_exported_iff operand globals).1 member
    rcases exists_of_mem_exportNames above exports with
      ⟨occurrence, declared, named⟩ | specified | expression
    · obtain ⟨other, introduces, _⟩ := existsUnique_introduces operand globals declared
      have name := (introduces.name_and_region operand globals).1.trans named
      by_cases same : other = id
      · exact .inl ⟨statement, occurrence, same ▸ introduces, sees⟩
      · exact .inr (.inr ⟨statement, sees, .inr ⟨occurrence, other, same, name, introduces⟩⟩)
    · exact .inr (.inl ⟨statement, (specifies_iff operand globals).2 ⟨sees, specified⟩⟩)
    · exact .inr (.inr ⟨statement, sees, .inl ⟨form, above, exports, expression⟩⟩)
  · rintro (⟨statement, occurrence, introduces, sees⟩ | ⟨statement, specifies⟩
      | ⟨statement, sees, ⟨form, above, exports, _⟩ | ⟨occurrence, other, _, named, introduces⟩⟩)
    · exact exported_of_introduces introduces rfl sees
    · obtain ⟨sees, occurrence, specified, named⟩ := (specifies_iff operand globals).1 specifies
      obtain ⟨form, above, exports⟩ := specified.mem_exportNames
      exact (mem_exported_iff operand globals).2 ⟨statement, form, above, named ▸ exports, sees⟩
    · exact (mem_exported_iff operand globals).2 ⟨statement, form, above, exports, sees⟩
    · exact exported_of_introduces introduces named sees
  · intro statement occurrence id introduces near
    exact exported_of_introduces introduces rfl (introduces.sees operand globals near)

theorem exported_iff_introduced_or_specified_function : ∃ root,
    Grammar.parse "export function f() {}" = .ok root
      ∧ ∃ occurrence id, occurrence.id.name = "f"
        ∧ (analyze root []).Introduces root [⟨.body, 0⟩] occurrence id
        ∧ id ∈ (analyze root []).exported := by
  have run : ((Grammar.parse "export function f() {}").toOption.any fun root =>
      (((formAt? root [⟨.body, 0⟩]).bind declarationOf?).bind declaredId?).map Ident.name
          == some "f"
        && !(formAt? root (Path.child [⟨.body, 0⟩] .declaration)).any isHoisted) = true := by
    decide +kernel
  obtain ⟨root, parsed, run⟩ := Grammar.exists_of_any_parse run
  simp only [Bool.and_eq_true, beq_iff_eq, Bool.not_eq_true'] at run
  obtain ⟨id, named, name⟩ := Option.map_eq_some_iff.1 run.1
  obtain ⟨declaration, declares, named⟩ := Option.bind_eq_some_iff.1 named
  obtain ⟨form, exports, declares⟩ := Option.bind_eq_some_iff.1 declares
  have whole := exported_iff_introduced_or_specified parsed []
  obtain ⟨introduced, introduces, _⟩ := whole.2.2 _ ⟨_, id⟩ (.name exports declares named)
  refine ⟨root, parsed, _, introduced, name, introduces, ?_⟩
  exact whole.2.1 _ _ _ introduces fun hoisted => Bool.noConfusion (run.2.symm.trans hoisted)

/-- In `let A; export default (class A {});` the variable is exported, and no statement introduces
or specifies it. -/
theorem exported_of_classExpression : ∃ root,
    Grammar.parse "let A; export default (class A {});" = .ok root
      ∧ ⟨1, "A"⟩ ∈ (analyze root []).exported
      ∧ ∀ statement, (∀ occurrence,
          ¬ (analyze root []).Introduces root statement occurrence ⟨1, "A"⟩)
        ∧ ¬ (analyze root []).Specifies root statement ⟨1, "A"⟩ := by
  have run : ((Grammar.parse "let A; export default (class A {});").toOption.any fun root =>
      (analyze root []).exported == [⟨1, "A"⟩] && (analyze root []).resolutions == []
        && (analyze root []).scopes[1]?.all fun scope => scope.locals.all fun binding =>
          binding.definitions.all fun occurrence =>
            !occurrence.place.contains ⟨.declaration, 0⟩) = true := by
    decide +kernel
  obtain ⟨root, parsed, run⟩ := Grammar.exists_of_any_parse run
  simp only [Bool.and_eq_true, beq_iff_eq] at run
  obtain ⟨⟨exported, resolutions⟩, places⟩ := run
  refine ⟨root, parsed, exported ▸ List.mem_singleton_self _, fun statement => ⟨?_, ?_⟩⟩
  · rintro occurrence ⟨declared, ⟨scope, found, binding, member, _, defines⟩, _⟩
    rw [found] at places
    have outside := List.all_eq_true.1 (List.all_eq_true.1 places binding member) _ defines
    simp [declared.mem_place] at outside
  · rintro ⟨resolution, member, _⟩
    rw [resolutions] at member
    cases member

end TemplateLint.Scope
