import TemplateLint.Proofs.Scope.Stations

/-!
# Effects of parts

The events of a part of a program and the stations of the part have the same effects about a
given region or stack, if the setting of the part fits the mode of the visit (`Setting.Fits`,
`Acts`). From this for single nodes follows the same for the parts in a field of a form.
-/

namespace TemplateLint.Scope

open TemplateLint.Syntax
open TemplateLint.Syntax.Fields (one optional many sparse text texts flag literal treeOf)

variable {node : Node} {setting : Setting} {here : Path} {mode : Mode}

/-! ## The effects of events -/

section Events

variable (around : List Region)

@[simp] theorem effects_nil : effects around [] = [] := rfl

@[simp] theorem effects_inScope (kind : ScopeKind) (block : Path) (events : List Event) :
    effects around (inScope kind block events)
      = .opened (⟨kind, block⟩ :: around) :: effects (⟨kind, block⟩ :: around) events := by
  have last : ∀ around, effects around [.leave] = [] := fun _ => rfl
  have first : effects around (inScope kind block events)
      = .opened (⟨kind, block⟩ :: around)
        :: effects (⟨kind, block⟩ :: around) (events ++ [.leave]) := rfl
  rw [first, effects_append, last, List.append_nil]

theorem effects_inScopeIf (condition : Bool) (kind : ScopeKind) (block : Path)
    (events : List Event) :
    effects around (inScopeIf condition kind block events)
      = (Station.openings around block (if condition then [kind] else [])).map .opened
        ++ effects ((if condition then [kind] else []).map (⟨·, block⟩) ++ around) events := by
  cases condition with
  | true => exact effects_inScope around kind block events
  | false => rfl

@[simp] theorem effects_declare (hoisted : Bool) (name : String) (kind : VariableKind)
    (definition : Option Occurrence) (rest : List Event) :
    effects around (.declare hoisted name kind definition :: rest)
      = .declared (Region.target around hoisted) name definition :: effects around rest := rfl

@[simp] theorem effects_nameEvents (here : Path) (kind : VariableKind) (id : Option Ident) :
    effects around (nameEvents here kind id) = id.toList.map fun id =>
      .declared (Region.innermost around) id.name (some ⟨here.child .id, id⟩) := by
  cases id <;> rfl

theorem effects_of_forall_none {events : List Event}
    (still : ∀ event ∈ events, event.move around = around)
    (none : ∀ event ∈ events, event.effect? around = none) : effects around events = [] := by
  induction events with
  | nil => rfl
  | cons event rest ih =>
    obtain ⟨stays, stay⟩ := List.forall_mem_cons.1 still
    obtain ⟨nothing, nothings⟩ := List.forall_mem_cons.1 none
    rw [effects, nothing, stays, ih stay nothings]
    rfl

@[simp] theorem effects_map_exported (names : List String) :
    effects around (names.map .exported) = [] :=
  effects_of_forall_none around (by simp [Event.move]) (by simp [Event.effect?])

@[simp] theorem effects_exportEvents (here : Path) (specifiers : List Node) :
    effects around (exportEvents here specifiers) = [] := by
  have each : ∀ event ∈ exportEvents here specifiers,
      event.move around = around ∧ event.effect? around = none := by
    intro event member
    obtain ⟨_, _, _, _, _, rfl | rfl⟩ := mem_exportEvents.1 member <;> exact ⟨rfl, rfl⟩
  exact effects_of_forall_none around (fun event member => (each event member).1)
    fun event member => (each event member).2

end Events

/-! ## What a node does by itself -/

section Own

variable (key : Key) (setting : Setting) (here : Path) (span : Span) {form : Form}

theorem Station.effects_mk :
    Station.effects ⟨here, ⟨span, form⟩, setting⟩
      = (Station.openings setting.around here (scopeKinds setting.isBody form)).map .opened
        ++ Station.declares ⟨here, ⟨span, form⟩, setting⟩ := rfl

theorem treeEffects_of_idle (still : ∀ parts : List (List Station), arrange form parts = parts)
    (idle : Station.effects ⟨here, ⟨span, form⟩, setting⟩ = []) :
    treeEffects key setting here (Node.tree ⟨span, form⟩)
      = fieldEffects key (setting.part form here) here form.fields := by
  rw [treeEffects_tree key setting here span still, idle, pick_nil, List.nil_append]

end Own

/-! ## Parts without effects -/

section Skipped

variable (key : Key) (setting : Setting) (here : Path)

theorem treeEffects_jsxName (span : Span) (name : TagName) :
    treeEffects key setting here (Node.tree ⟨span, .jsxName name⟩) = [] := by
  have below : ∀ (span : Span) (name : TagName) (setting : Setting) (here : Path),
      treeEffects key setting here (Node.tree ⟨span, .jsxName name⟩)
        = fieldEffects key (setting.part (.jsxName name) here) here
          ⟨name.tree.layout, name.tree.children⟩ := by
    intro span name setting here
    rw [treeEffects_of_idle key setting here span (fun _ => rfl) rfl, Form.fields]
  have simple : ∀ (id : Ident) (setting : Setting) (here : Path),
      treeEffects key setting here (TagName.simple id).tree = [] := by
    intro id setting here
    rw [TagName.isView_tree, TagName.node_tree, TagName.node, below]
    exact fieldEffects_of_children_nil _ _ _ rfl
  induction name generalizing span setting here with
  | simple id =>
    rw [below]
    exact fieldEffects_of_children_nil _ _ _ rfl
  | namespaced space name =>
    rw [below]
    refine (fieldEffects_append key _ here (one .space (TagName.simple space).tree)
      (one .name (TagName.simple name).tree)).trans ?_
    rw [fieldEffects_one, fieldEffects_one, simple, simple, List.append_nil]
  | member object property ih =>
    rw [below]
    refine (fieldEffects_append key _ here (one .object object.tree)
      (one .property (TagName.simple property).tree)).trans ?_
    rw [fieldEffects_one, fieldEffects_one, simple, TagName.isView_tree object, TagName.node_tree,
      TagName.node, ih, List.append_nil]

@[simp] theorem treeEffects_tagName (name : TagName) :
    treeEffects key setting here name.tree = [] := by
  rw [TagName.isView_tree, TagName.node_tree]
  exact treeEffects_jsxName ..

theorem fieldEffects_ident? (inside : Field → Setting) (field : Field) (id : Option Ident) :
    fieldEffects key inside here (.optional field (id.map Ident.tree))
      = id.toList.flatMap fun id => pick key ((inside field).binds.map fun region =>
        .declared region id.name (some ⟨here.child field, id⟩)) := by
  cases id with
  | none => exact fieldEffects_of_children_nil _ _ _ rfl
  | some id => exact (fieldEffects_one ..).trans (by simp [treeEffects_ident])

theorem treeEffects_literal (literal : node.isLiteral = true) :
    treeEffects key setting here node.tree = [] := by
  obtain ⟨span, form⟩ := node
  cases form with
  | literal =>
    rw [treeEffects_of_idle key setting here span (fun _ => rfl) rfl, Form.fields]
    simp
  | _ => simp [Node.isLiteral] at literal

theorem treeEffects_closingTag (closing : node.isClosingTag = true) :
    treeEffects key setting here node.tree = [] := by
  obtain ⟨span, form⟩ := node
  cases form with
  | jsxClosing =>
    rw [treeEffects_of_idle key setting here span (fun _ => rfl) rfl, Form.fields]
    simp
  | _ => simp [Node.isClosingTag] at closing

theorem treeEffects_plainKey (plain : node.isPlainKey = true) (free : setting.binds = []) :
    treeEffects key setting here node.tree = [] := by
  obtain ⟨span, form⟩ := node
  cases form with
  | identifier name =>
    have same : Node.tree ⟨span, .identifier name⟩ = Ident.tree ⟨span, name⟩ :=
      (Ident.isView_tree ⟨span, name⟩).symm
    rw [same, treeEffects_ident, free, List.map_nil, pick_nil]
  | literal => exact treeEffects_literal key setting here rfl
  | _ => simp [Node.isPlainKey] at plain

theorem treeEffects_exportSpecifier (specifier : node.isExportSpecifier = true) :
    treeEffects key setting here node.tree = [] := by
  obtain ⟨span, form⟩ := node
  cases form with
  | exportSpecifier =>
    rw [treeEffects_of_idle key setting here span (fun _ => rfl) rfl, Form.fields]
    simp [treeEffects_ident, Setting.part, Setting.boundPart]
  | _ => simp [Node.isExportSpecifier] at specifier

theorem treeEffects_importSpecifier (specifier : node.isImportSpecifier = true) :
    ∃ occurrence, importedBinding? here node = some occurrence
      ∧ treeEffects key setting here node.tree = pick key (setting.binds.map fun region =>
        .declared region occurrence.id.name (some occurrence)) := by
  obtain ⟨span, form⟩ := node
  cases form with
  | importSpecifier | importDefault | importNamespace =>
    refine ⟨_, rfl, ?_⟩
    rw [treeEffects_of_idle key setting here span (fun _ => rfl) rfl, Form.fields]
    simp [treeEffects_ident, Setting.part, Setting.boundPart]
  | _ => simp [Node.isImportSpecifier] at specifier

theorem effects_importEvents {around : List Region} {specifiers : List Node}
    {inside : Field → Setting} (each : ∀ node ∈ specifiers, node.isImportSpecifier = true)
    (bound : (inside .specifiers).binds = [Region.hoisting around]) :
    pick key (effects around (importEvents here specifiers))
      = fieldEffects key inside here (many .specifiers (treesOf specifiers)) := by
  rw [importEvents, fieldEffects_eq_flatMap, Fields.children_treesOf, List.flatMap_map]
  have each : ∀ entry ∈ specifiers.zipIdx, entry.1.isImportSpecifier = true :=
    fun entry member => each _ (List.fst_mem_of_mem_zipIdx member)
  generalize specifiers.zipIdx = entries at each ⊢
  induction entries with
  | nil => rfl
  | cons entry rest ih =>
    obtain ⟨first, others⟩ := List.forall_mem_cons.1 each
    obtain ⟨occurrence, binding, same⟩ := treeEffects_importSpecifier key (inside .specifiers)
      (here.item .specifiers entry.2) first
    rw [List.flatMap_cons, ← ih others]
    refine Eq.trans ?_ (congrArg (· ++ _) same.symm)
    simp [binding, bound, Region.target]

end Skipped

/-! ## Settings that fit -/

namespace Setting

/-- All regions around a part belong to nodes around it. -/
def Below (setting : Setting) (place : Path) : Prop :=
  ∀ region ∈ setting.around, region.block.length < place.length

theorem below_part (below : setting.Below here) (form : Form) (field : Field) (index : Nat) :
    (setting.part form here field).Below (⟨field, index⟩ :: here) := by
  intro region member
  rw [List.length_cons]
  rcases List.mem_append.1 member with new | old
  · obtain ⟨kind, _, rfl⟩ := List.mem_map.1 new
    exact Nat.lt_succ_self _
  · exact Nat.lt_succ_of_lt (below region old)

theorem Below.not_mem (below : setting.Below here) (kind : ScopeKind) :
    ⟨kind, here⟩ ∉ setting.around :=
  fun member => Nat.lt_irrefl _ (below _ member)

theorem Below.innermost_ne (below : setting.Below here)
    {kind : ScopeKind} (proper : kind ≠ .global) :
    Region.innermost setting.around ≠ ⟨kind, here⟩ := by
  intro same
  rcases target_mem_or setting.around false with listed | global
  · exact below.not_mem kind (same ▸ listed)
  · exact proper (congrArg Region.kind (same.symm.trans global))

/-- A node in a setting may be visited in a mode: what is declared is a pattern, or a part of
one, that the setting binds as the mode says, and nothing else is bound. -/
def Suits (setting : Setting) (node : Node) : Mode → Prop
  | .declare _ hoisted _ => setting.binds = [Region.target setting.around hoisted]
    ∧ (node.isBinding = true ∨ node.isDeclarator = true)
  | _ => setting.binds = []

theorem Suits.free (suits : setting.Suits node mode)
    (noBinding : node.isBinding = false) (noDeclarator : node.isDeclarator = false) :
    setting.binds = [] := by
  cases mode with
  | evaluate => exact suits
  | assign => exact suits
  | declare =>
    rcases suits.2 with binding | declarator
    · exact absurd binding (by simp [noBinding])
    · exact absurd declarator (by simp [noDeclarator])

theorem Suits.omits {setting : Setting} {span : Span} {form : Form} {mode : Mode}
    (suits : setting.Suits ⟨span, form⟩ mode) : mode.omits form = false := by
  cases mode with
  | evaluate => rfl
  | assign => rfl
  | declare =>
    cases form with
    | identifier | arrayPattern | objectPattern | assignmentPattern | restElement | property
    | variableDeclarator => rfl
    | _ => simp [Suits, Node.isBinding, Node.isDeclarator] at suits

/-- A part in a setting may be met in some way: nothing is left out that has an effect. -/
def Takes (key : Key) (setting : Setting) (tree : Tree) : Visit → Prop
  | .visited mode => setting.Suits tree.node mode
  | _ => ∀ place, treeEffects key setting place tree = []

/-- Every part is visited in the way that its setting asks for. -/
def TakesParts (key : Key) (setting : Setting) (here : Path) (mode : Mode) (form : Form)
    (fields : Fields) : Prop :=
  fields.All fun field tree => (setting.part form here field).Takes key tree (mode.part form field)

theorem isBody_part (form : Form) (field : Field) :
    (setting.part form here field).isBody = holdsBody form field := by
  cases form <;> rfl

end Setting

/-- The events of a node, as a body or otherwise, do what its stations do. -/
def Acts (key : Key) (node : Node) : Prop :=
  ∀ setting place mode, setting.Below place → setting.Suits node mode →
    pick key (effects setting.around ((Visit.visited mode).events setting.isBody place node))
      = treeEffects key setting place node.tree

/-- The events of every part have the effects of its stations. -/
def PartsAct (key : Key) (fields : Fields) : Prop :=
  fields.All fun _ tree => tree.IsView ∧ Acts key tree.node

theorem partsAct_append (key : Key) (first second : Fields) :
    PartsAct key (first ++ second) ↔ PartsAct key first ∧ PartsAct key second :=
  Fields.all_append ..

/-- The events of parts that have the same regions around them. -/
theorem effects_partEvents {key : Key} (below : setting.Below here) (mode : Mode) (form : Form)
    {fields : Fields} (acts : PartsAct key fields)
    (takes : setting.TakesParts key here mode form fields) (around : List Region)
    (same : fields.All fun field _ => (setting.part form here field).around = around) :
    pick key (effects around (partEvents mode form here fields))
      = fieldEffects key (setting.part form here) here fields := by
  obtain ⟨layout, children⟩ := fields
  rw [partEvents, fieldEffects_eq_flatMap]
  induction children with
  | nil => rfl
  | cons child rest ih =>
    obtain ⟨⟨view, act⟩, acts⟩ := List.forall_mem_cons.1 acts
    obtain ⟨take, takes⟩ := List.forall_mem_cons.1 takes
    obtain ⟨here', same⟩ := List.forall_mem_cons.1 same
    rw [List.flatMap_cons, effects_append, regionsAfter_events, pick_append, ih acts takes same,
      List.flatMap_cons]
    refine congrArg (· ++ _) ?_
    cases met : mode.part form child.1.field with
    | visited mode =>
      rw [met] at take
      have done := act _ _ mode (Setting.below_part below form child.1.field child.1.index) take
      rwa [here', Setting.isBody_part, ← view] at done
    | skipped | exported =>
      rw [met] at take
      exact (take _).symm

/-! ## The order of effects -/

section Order

variable {key : Key}

theorem key_of_mem_pick {done : List Effect} {effect : Effect} (member : effect ∈ pick key done) :
    effect.key = key := by
  simpa using (List.mem_filter.1 member).2

theorem only_opened_comm (stack : List Region) {done : List Effect}
    (about : ∀ effect ∈ done, effect.key = key) :
    (Effect.opened stack).only key ++ done = done ++ (Effect.opened stack).only key := by
  by_cases same : key = .stack stack
  · have equal : ∀ effect ∈ done, effect = .opened stack := by
      intro effect member
      have named := (about effect member).trans same
      cases effect with
      | opened other => exact congrArg _ (Key.stack.inj named)
      | declared => cases named
    rw [List.eq_replicate_of_mem equal]
    simp [Effect.only, Effect.key, same, ← List.replicate_succ, List.replicate_succ']
  · have none : (Effect.opened stack).only key = [] := if_neg fun equal => same equal.symm
    rw [none, List.nil_append, List.append_nil]

theorem only_declared_comm {region : Region} (name : String) (definition : Option Occurrence)
    {done : List Effect} (apart : key = .region region → done = []) :
    (Effect.declared region name definition).only key ++ done
      = done ++ (Effect.declared region name definition).only key := by
  by_cases same : key = .region region
  · rw [apart same, List.nil_append, List.append_nil]
  · have none : (Effect.declared region name definition).only key = [] :=
      if_neg fun equal => same equal.symm
    rw [none, List.nil_append, List.append_nil]

end Order

end TemplateLint.Scope
