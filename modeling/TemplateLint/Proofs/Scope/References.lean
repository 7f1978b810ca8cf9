import TemplateLint.Proofs.Grammar.Program
import TemplateLint.Proofs.Scope.Resolution
import TemplateLint.Proofs.Scope.Visit

/-!
# Which identifiers refer

Some identifiers are names only (`isNameAt`), others are bound where they stand, with or without a
value (`bindingAt?`). These rules look at the nodes around a place and know nothing of how the
analysis goes through a program. In a shaped program it meets every node as they ask for
(`meets_visitAt`), so every identifier refers exactly when it should (`analyze_references`).
-/

namespace TemplateLint.Scope

open TemplateLint.Syntax

/-! ## The rules -/

/-- The form of the node at a place. -/
def formAt? (root : Node) (place : Path) : Option Form :=
  (root.tree.nodeAt? place).map Node.form

/-- The part in a field of a form is a name and no use of a variable. Both names of a
specifier are, if it exports from another module. -/
def isName (forwarded : Bool) : Form → Field → Bool
  | .member _ _ computed, field => field == .property && !computed
  | .property _ _ _ computed, field | .methodDefinition _ _ _ _ _ computed, field
  | .classProperty _ _ _ _ computed, field => field == .key && !computed
  | .labeledStatement .., field | .breakStatement _, field | .continueStatement _, field =>
    field == .label
  | .importSpecifier .., _ | .importDefault _, _ | .importNamespace _, _ => true
  | .exportSpecifier .., field => field == .exported || forwarded
  | .function .., field | .classDefinition .., field => field == .id
  | _, _ => false

/-- An export of what another module exports. Its names refer to no variables here. -/
def forwards : Form → Bool
  | .exportNamed _ _ source => source.isSome
  | _ => false

def isForwarded (root : Node) : Path → Bool
  | [] => false
  | _ :: parent => (formAt? root parent).any forwards

/-- The identifier at a place is a name and no variable. -/
def isNameAt (root : Node) : Path → Bool
  | [] => false
  | step :: parent =>
    (formAt? root parent).any fun form => isName (isForwarded root parent) form step.field

def headsLoop (field : Field) : Form → Bool
  | .forInStatement .. | .forOfStatement .. => field == .left
  | _ => false

/-- The node at a place is what a loop over a collection assigns to. -/
def isLoopHead (root : Node) : Path → Bool
  | [] => false
  | step :: parent => (formAt? root parent).any (headsLoop step.field)

/-- For a part that is a target of a declaration of variables: whether the declaration is the
head of a loop. -/
def declarator? (head : Bool) : Form → Option Bool
  | .variableDeclaration .. => some head
  | _ => none

def declaratorAt? (root : Node) : Path → Option Bool
  | [] => none
  | _ :: parent => (formAt? root parent).bind (declarator? (isLoopHead root parent))

/-- For a part that binds identifiers: whether they get a value with it. Parts of a pattern
bind if the pattern does (`outer`). The target of a declarator binds if the declarator is in a
declaration (`head`). -/
def binding? (field : Field) (outer head : Option Bool) : Form → Option Bool
  | .function .. | .arrowFunction .. => if field = .params then some false else none
  | .catchClause .. => if field = .param then some false else none
  | .variableDeclarator _ init =>
    if field = .id then head.map (· || init.isSome) else none
  | .arrayPattern _ | .objectPattern _ | .restElement _ => outer
  | .assignmentPattern .. => if field = .left then outer else none
  | .property .. => if field = .value then outer else none
  | _ => none

/-- For a pattern, or a part of one, that binds identifiers as parameters or as targets of a
declaration: whether they get a value with it. -/
def bindingAt? (root : Node) : Path → Option Bool
  | [] => none
  | step :: parent =>
    (formAt? root parent).bind
      (binding? step.field (bindingAt? root parent) (declaratorAt? root parent))

/-- An identifier at a place refers to no variable. -/
def isExempt (root : Node) (place : Path) : Bool :=
  isNameAt root place || bindingAt? root place == some false

section Cons

variable (root : Node) (step : Step) (parent : Path)

@[simp] theorem isForwarded_cons :
    isForwarded root (step :: parent) = (formAt? root parent).any forwards := rfl

@[simp] theorem isNameAt_cons : isNameAt root (step :: parent)
    = (formAt? root parent).any fun form => isName (isForwarded root parent) form step.field := rfl

@[simp] theorem isLoopHead_cons :
    isLoopHead root (step :: parent) = (formAt? root parent).any (headsLoop step.field) := rfl

@[simp] theorem declaratorAt?_cons : declaratorAt? root (step :: parent)
    = (formAt? root parent).bind (declarator? (isLoopHead root parent)) := rfl

@[simp] theorem bindingAt?_cons : bindingAt? root (step :: parent)
    = (formAt? root parent).bind
      (binding? step.field (bindingAt? root parent) (declaratorAt? root parent)) := rfl

end Cons

/-! ## How nodes should be met -/

/-- A node that may be skipped: if it is an identifier, it is a name, and the identifiers in
it are names. -/
def Inert (root : Node) (place : Path) : Node → Prop
  | ⟨_, .identifier _⟩ => isNameAt root place = true
  | ⟨_, .exportSpecifier ..⟩ => isForwarded root place = true
  | ⟨_, .literal ..⟩ | ⟨_, .importSpecifier ..⟩ | ⟨_, .importDefault _⟩
  | ⟨_, .importNamespace _⟩ | ⟨_, .jsxName _⟩ | ⟨_, .jsxClosing _⟩ => True
  | _ => False

/-- An expression at a place whose variables are used: no name, no target, no declaration. -/
structure Used (root : Node) (place : Path) (node : Node) : Prop where
  isNoName : isNameAt root place = false
  isNotBound : bindingAt? root place = none
  isNoTarget : declaratorAt? root place = none
  isNoSpecifier : node.isExportSpecifier = false

/-- A node is met as the rules ask for. -/
def Meets (root : Node) (place : Path) (node : Node) : Visit → Prop
  | .skipped => Inert root place node
  | .exported => node.isExportSpecifier = true ∧ isForwarded root place = false
  | .visited .evaluate =>
    Used root place node ∧ (node.isDeclaration = true → isLoopHead root place = false)
  | .visited (.assign access) =>
    Used root place node ∧ (node.isDeclaration = true → isLoopHead root place = true)
      ∧ access.initial = false
  | .visited (.declare _ _ written) =>
    isNameAt root place = false
      ∧ (node.isBinding = true ∧ bindingAt? root place = some written
        ∨ node.isDeclarator = true ∧ declaratorAt? root place = some written)

section Parts

variable {root node : Node} {place : Path}

theorem meets_evaluate (noSpecifier : node.isExportSpecifier = false)
    (plain : isNameAt root place = false ∧ bindingAt? root place = none
      ∧ declaratorAt? root place = none ∧ isLoopHead root place = false) :
    Meets root place node (.visited .evaluate) :=
  ⟨⟨plain.1, plain.2.1, plain.2.2.1, noSpecifier⟩, fun _ => plain.2.2.2⟩

theorem meets_key {computed : Bool} (noSpecifier : node.isExportSpecifier = false)
    (plainKey : computed = false → node.isPlainKey = true)
    (key : isNameAt root place = !computed ∧ bindingAt? root place = none
      ∧ declaratorAt? root place = none ∧ isLoopHead root place = false) :
    Meets root place node (.evaluatedIf computed) := by
  cases computed with
  | true => exact meets_evaluate noSpecifier key
  | false =>
    have plain := plainKey rfl
    obtain ⟨span, form⟩ := node
    cases form with
    | identifier => exact key.1
    | literal => trivial
    | _ => simp [Node.isPlainKey] at plain

theorem meets_literal (literal : node.isLiteral = true) : Meets root place node .skipped := by
  obtain ⟨span, form⟩ := node
  cases form with
  | literal => trivial
  | _ => simp [Node.isLiteral] at literal

theorem meets_importSpecifier (specifier : node.isImportSpecifier = true) :
    Meets root place node .skipped := by
  obtain ⟨span, form⟩ := node
  cases form with
  | importSpecifier | importDefault | importNamespace => trivial
  | _ => simp [Node.isImportSpecifier] at specifier

theorem meets_forwarded (specifier : node.isExportSpecifier = true)
    (forwarded : isForwarded root place = true) : Meets root place node .skipped := by
  obtain ⟨span, form⟩ := node
  cases form with
  | exportSpecifier => exact forwarded
  | _ => simp [Node.isExportSpecifier] at specifier

theorem meets_closingTag (closing : node.isClosingTag = true) :
    Meets root place node .skipped := by
  obtain ⟨span, form⟩ := node
  cases form with
  | jsxClosing => trivial
  | _ => simp [Node.isClosingTag] at closing

theorem meets_assign {access : Access} (noSpecifier : node.isExportSpecifier = false)
    (plain : isNameAt root place = false ∧ bindingAt? root place = none
      ∧ declaratorAt? root place = none)
    (head : node.isDeclaration = true → isLoopHead root place = true)
    (later : access.initial = false) : Meets root place node (.visited (.assign access)) :=
  ⟨⟨plain.1, plain.2.1, plain.2.2, noSpecifier⟩, head, later⟩

theorem meets_param {kind : VariableKind} {hoisted : Bool} (binding : node.isBinding = true)
    (bound : isNameAt root place = false ∧ bindingAt? root place = some false) :
    Meets root place node (.visited (.declare kind hoisted false)) :=
  ⟨bound.1, .inl ⟨binding, bound.2⟩⟩

end Parts

/-- A part that is evaluated, and that no rule is about. -/
def isPlain (form : Form) (field : Field) : Bool :=
  (Mode.assign .write).part form field = .visited .evaluate && !form.takesSpecifier field
    && !isName true form field && (binding? field (some false) (some false) form).isNone
    && (declarator? false form).isNone && !headsLoop field form

theorem isName_eq_false {form : Form} {field : Field} (none : isName true form field = false)
    (forwarded : Bool) : isName forwarded form field = false := by
  cases form with
  | exportSpecifier => simp [isName] at none
  | _ => exact none

theorem binding?_eq_none {form : Form} {field : Field}
    (none : binding? field (some false) (some false) form = none) (outer head : Option Bool) :
    binding? field outer head form = .none := by
  cases form with
  | variableDeclarator => simp_all [binding?]
  | arrayPattern | objectPattern | restElement => simp [binding?] at none
  | assignmentPattern | property => simp_all [binding?]
  | _ => exact none

theorem declarator?_eq_none {form : Form} (none : declarator? false form = none) (head : Bool) :
    declarator? head form = .none := by
  cases form with
  | variableDeclaration => simp [declarator?] at none
  | _ => exact none

theorem part_of_isPlain {form : Form} {field : Field} (plain : isPlain form field = true)
    (mode : Mode) : mode.part form field = .visited .evaluate := by
  simp only [isPlain, Bool.and_eq_true, decide_eq_true_eq] at plain
  cases form with
  | arrayPattern | objectPattern | restElement | assignmentPattern | property | variableDeclarator
  | variableDeclaration =>
    simp_all [Mode.part, Mode.inner, Mode.withValue, Mode.declarators, ite_eq_iff]
  | _ => exact plain.1.1.1.1.1

theorem meets_plain {root node : Node} {parent : Path} {form : Form} {field : Field}
    (above : formAt? root parent = some form) (admits : form.Admits field node)
    (plain : isPlain form field = true) (index : Nat) :
    Meets root (⟨field, index⟩ :: parent) node (.visited .evaluate) := by
  simp only [isPlain, Bool.and_eq_true, Bool.not_eq_true', Option.isNone_iff_eq_none] at plain
  obtain ⟨⟨⟨⟨⟨_, noSpecifiers⟩, noName⟩, notBound⟩, noTarget⟩, noHead⟩ := plain
  refine meets_evaluate (admits.isExportSpecifier noSpecifiers) ?_
  simp [above, isName_eq_false noName, binding?_eq_none notBound, declarator?_eq_none noTarget,
    noHead]

/-! ## The parts of a visited node -/

/-- Every part is met in the way that its place asks for. -/
def PartsMeet (root : Node) (parent : Path) (form : Form) (visit : Field → Visit) : Prop :=
  form.fields.All fun field tree =>
    ∀ index, Meets root (⟨field, index⟩ :: parent) tree.node (visit field)

section Visited

variable {root : Node} {parent : Path} {span : Span} {form : Form} {mode : Mode}

section Forms

variable (above : formAt? root parent = some form) (shaped : form.Shaped)
  (met : Meets root parent ⟨span, form⟩ (.visited mode))

include above shaped

/-- Only parts that some rule is about need a look. -/
theorem partsMeet_of_special
    (special : form.fields.All fun field tree => isPlain form field = false →
      form.Admits field tree.node →
        ∀ index, Meets root (⟨field, index⟩ :: parent) tree.node (mode.part form field)) :
    PartsMeet root parent form (mode.part form) := by
  intro child member index
  have admits := shaped.2 child member
  cases plain : isPlain form child.1.field with
  | true =>
    rw [part_of_isPlain plain]
    exact meets_plain above admits plain index
  | false => exact special child member plain admits index

include met in
theorem meets_passedOn : form.fields.All fun field tree => form.passesOn field = true →
    ∀ index, Meets root (⟨field, index⟩ :: parent) tree.node (.visited mode.inner) := by
  intro child member passes index
  have rules : Node.isDeclarator ⟨span, form⟩ = false
      ∧ form.takesDeclaration child.1.field = false ∧ form.takesSpecifier child.1.field = false
      ∧ isName (isForwarded root parent) form child.1.field = false
      ∧ (∀ outer head, binding? child.1.field outer head form = outer)
      ∧ ∀ head, declarator? head form = none := by
    cases form with
    | arrayPattern | objectPattern | restElement | assignmentPattern | property =>
      simp_all [Form.passesOn, Node.isDeclarator, Form.takesDeclaration, Form.takesSpecifier,
        isName, binding?, declarator?]
    | _ => cases passes
  obtain ⟨noDeclarator, noDeclarations, noSpecifiers, name, binding, target⟩ := rules
  have admits := shaped.2 child member
  have noName : isNameAt root (⟨child.1.field, index⟩ :: parent) = false := by simp [above, name]
  have noTarget : declaratorAt? root (⟨child.1.field, index⟩ :: parent) = none := by
    simp [above, target]
  have sameBinding : bindingAt? root (⟨child.1.field, index⟩ :: parent)
      = bindingAt? root parent := by
    simp [above, binding]
  have noSpecifier := admits.isExportSpecifier noSpecifiers
  have noLoop : ∀ {head : Bool}, child.2.node.isDeclaration = true →
      isLoopHead root (⟨child.1.field, index⟩ :: parent) = head := by
    simp [admits.isDeclaration noDeclarations]
  cases mode with
  | evaluate => exact ⟨⟨noName, sameBinding.trans met.1.isNotBound, noTarget, noSpecifier⟩, noLoop⟩
  | assign access =>
    exact ⟨⟨noName, sameBinding.trans met.1.isNotBound, noTarget, noSpecifier⟩, noLoop, rfl⟩
  | declare kind hoisted written =>
    rcases met.2 with ⟨pattern, written⟩ | ⟨declarator, _⟩
    · exact ⟨noName, .inl ⟨Node.isBinding_part pattern child member passes,
        sameBinding.trans written⟩⟩
    · simp [noDeclarator] at declarator

include met in
theorem partsMeet_variableDeclarator {target : Node} {init : Option Node}
    (is : form = .variableDeclarator target init) :
    PartsMeet root parent form (mode.part form) := by
  refine partsMeet_of_special above shaped ?_
  subst is
  simp only [Form.fields, Fields.all_append, Fields.all_one, Fields.all_treeOf?, Node.node_tree]
  refine ⟨fun _ admits index => ?_, fun _ _ => by simp [isPlain, Mode.part, Form.takesSpecifier,
    isName, binding?, declarator?, headsLoop]⟩
  have noDeclaration := admits.isDeclaration rfl
  have noSpecifier := admits.isExportSpecifier rfl
  cases mode with
  | evaluate =>
    have noTarget := met.1.isNoTarget
    exact meets_evaluate noSpecifier (by simp [above, isName, binding?, declarator?, noTarget,
      headsLoop])
  | assign access =>
    have noTarget := met.1.isNoTarget
    exact meets_assign noSpecifier (by simp [above, isName, binding?, declarator?, noTarget])
      (by simp [noDeclaration]) met.2.2
  | declare kind hoisted written =>
    rcases met.2 with ⟨isBinding, _⟩ | ⟨_, head⟩
    · simp [Node.isBinding] at isBinding
    · refine ⟨?_, .inl ⟨shaped.1, ?_⟩⟩
      · simp [above, isName]
      · simp [above, binding?, head]

include met in
theorem partsMeet_variableDeclaration {declarations : List Node} {kind : String}
    (is : form = .variableDeclaration declarations kind) :
    PartsMeet root parent form (mode.part form) := by
  subst is
  simp only [PartsMeet, Form.fields, Fields.all_append, Fields.all_treesOf, Fields.all_text,
    Node.node_tree, and_true]
  intro declarator member index
  have isDeclarator : declarator.isDeclarator = true := shaped.1 declarator member
  have noName : isNameAt root (⟨.declarations, index⟩ :: parent) = false := by
    simp [above, isName]
  have head : declaratorAt? root (⟨.declarations, index⟩ :: parent)
      = some (isLoopHead root parent) := by
    simp [above, declarator?]
  cases mode with
  | evaluate => exact ⟨noName, .inr ⟨isDeclarator, head.trans (congrArg some (met.2 rfl))⟩⟩
  | assign => exact ⟨noName, .inr ⟨isDeclarator, head.trans (congrArg some (met.2.1 rfl))⟩⟩
  | declare => simp [Meets, Node.isBinding, Node.isDeclarator] at met

theorem partsMeet_exportNamed {declaration source : Option Node} {specifiers : List Node}
    (is : form = .exportNamed declaration specifiers source) :
    PartsMeet root parent form (mode.part form) := by
  subst is
  obtain ⟨⟨each, literal, apart⟩, admits⟩ := shaped
  simp only [PartsMeet, Form.fields, Fields.all_append, Fields.all_treeOf?, Fields.all_treesOf,
    Node.node_tree] at admits ⊢
  refine ⟨⟨fun node member => meets_plain above (admits.1.1 node member) rfl,
    fun specifier member index => ?_⟩, fun node member index => meets_literal (literal node member)⟩
  cases declaration with
  | some declaration =>
    rw [apart rfl] at member
    cases member
  | none =>
    cases source with
    | none => exact ⟨each specifier member, by simp [above, forwards]⟩
    | some source => exact meets_forwarded (each specifier member) (by simp [above, forwards])

end Forms

theorem partsMeet_skipped (span : Span) (above : formAt? root parent = some form)
    (inert : Inert root parent ⟨span, form⟩) :
    PartsMeet root parent form fun _ => .skipped := by
  cases form with
  | identifier | literal =>
    simp [PartsMeet, Form.fields]
  | importSpecifier | importDefault | importNamespace =>
    simp [PartsMeet, Form.fields, Meets, Inert, Ident.node, above, isName]
  | exportSpecifier =>
    have forwarded : isForwarded root parent = true := inert
    simp [PartsMeet, Form.fields, Meets, Inert, Ident.node, above, isName, forwarded]
  | jsxName name =>
    rw [PartsMeet, Form.fields]
    refine name.all_children fun field part index => ?_
    rw [TagName.node_tree]
    trivial
  | jsxClosing name =>
    simp only [PartsMeet, Form.fields, Fields.all_one, TagName.node_tree]
    exact fun index => trivial
  | _ => exact inert.elim

theorem partsMeet_exported (above : formAt? root parent = some form)
    (met : Meets root parent ⟨span, form⟩ .exported) :
    PartsMeet root parent form (Visit.exported.part form) := by
  obtain ⟨specifier, here⟩ := met
  cases form with
  | exportSpecifier binding exported =>
    simp only [PartsMeet, Form.fields, Fields.all_append, Fields.all_one, Ident.node_tree]
    refine ⟨fun index => meets_evaluate rfl ?_, fun index => ?_⟩
    · simp [above, isName, here, binding?, declarator?, headsLoop]
    · simp [Visit.part, Meets, Inert, Ident.node, above, isName]
  | _ => simp [Node.isExportSpecifier] at specifier

theorem partsMeet_visited (above : formAt? root parent = some form) (shaped : form.Shaped)
    (met : Meets root parent ⟨span, form⟩ (.visited mode)) :
    PartsMeet root parent form (mode.part form) := by
  cases form with
  | arrayPattern | objectPattern | restElement =>
    exact fun child member => meets_passedOn above shaped met child member rfl
  | assignmentPattern =>
    have passed := meets_passedOn above shaped met
    refine partsMeet_of_special above shaped ?_
    simp only [Form.fields, Fields.all_append, Fields.all_one] at passed ⊢
    exact ⟨fun _ _ => passed.1 rfl, fun special => Bool.noConfusion special⟩
  | property =>
    have passed := meets_passedOn above shaped met
    refine partsMeet_of_special above shaped ?_
    simp only [Form.fields, Fields.all_append, Fields.all_one, Fields.all_text, Fields.all_flag,
      Node.node_tree, and_true] at passed ⊢
    refine ⟨fun _ admits index => meets_key (admits.isExportSpecifier rfl) shaped.1 ?_,
      fun _ _ => passed.2 rfl⟩
    simp [above, isName, binding?, declarator?, headsLoop]
  | variableDeclarator => exact partsMeet_variableDeclarator above shaped met rfl
  | variableDeclaration => exact partsMeet_variableDeclaration above shaped met rfl
  | exportNamed => exact partsMeet_exportNamed above shaped rfl
  | assignment =>
    refine partsMeet_of_special above shaped ?_
    simp [Form.fields, isPlain, Mode.part, Form.takesSpecifier, isName, binding?, declarator?,
      headsLoop]
    exact fun admits index => meets_assign (admits.isExportSpecifier rfl)
      (by simp [above, isName, binding?, declarator?]) (by simp [admits.isDeclaration rfl])
      (by split <;> rfl)
  | update =>
    refine partsMeet_of_special above shaped ?_
    simp [Form.fields, isPlain, Mode.part, Form.takesSpecifier, isName, binding?, declarator?,
      headsLoop]
    intro target admits index
    rw [if_pos (Option.isSome_iff_ne_none.2 target)]
    exact meets_assign (admits.isExportSpecifier rfl)
      (by simp [above, isName, binding?, declarator?]) (by simp [admits.isDeclaration rfl]) rfl
  | forInStatement | forOfStatement =>
    refine partsMeet_of_special above shaped ?_
    simp [Form.fields, isPlain, Mode.part, Form.takesSpecifier, isName, binding?, declarator?,
      headsLoop]
    exact fun admits index => meets_assign (admits.isExportSpecifier rfl)
      (by simp [above, isName, binding?, declarator?]) (by simp [above, headsLoop]) rfl
  | methodDefinition | classProperty | member =>
    refine partsMeet_of_special above shaped ?_
    simp [Form.fields, isPlain, Mode.part, Form.takesSpecifier, isName, binding?, declarator?,
      headsLoop]
    exact fun _ admits index => meets_key (admits.isExportSpecifier rfl) shaped.1
      (by simp [above, isName, binding?, declarator?, headsLoop])
  | function =>
    refine partsMeet_of_special above shaped ?_
    simp [Form.fields, isPlain, Mode.part, Form.takesSpecifier, isName, binding?, declarator?,
      headsLoop]
    exact ⟨fun id _ _ index => by simp [Meets, Inert, Ident.node, above, isName],
      fun param member _ index => meets_param (shaped.1 param member)
        (by simp [above, isName, binding?])⟩
  | arrowFunction | catchClause =>
    refine partsMeet_of_special above shaped ?_
    simp [Form.fields, isPlain, Mode.part, Form.takesSpecifier, isName, binding?, declarator?,
      headsLoop]
    exact fun param member _ index => meets_param (shaped.1 param member)
      (by simp [above, isName, binding?])
  | classDefinition | labeledStatement | jsxOpening | jsxAttribute =>
    refine partsMeet_of_special above shaped ?_
    simp [Form.fields, isPlain, Mode.part, Form.takesSpecifier, isName, binding?, declarator?,
      headsLoop, Meets, Inert, Ident.node, TagName.node, above]
  | jsxElement =>
    refine partsMeet_of_special above shaped ?_
    simp [Form.fields, isPlain, Mode.part, Form.takesSpecifier, isName, binding?, declarator?,
      headsLoop]
    exact fun node member _ _ => meets_closingTag (shaped.1 node member)
  | importSpecifier | importDefault | importNamespace | jsxName | jsxClosing =>
    exact partsMeet_skipped span above trivial
  | importDeclaration =>
    obtain ⟨each, literal⟩ := shaped.1
    simp only [PartsMeet, Form.fields, Fields.all_append, Fields.all_treesOf, Fields.all_one,
      Node.node_tree]
    exact ⟨fun node member index => meets_importSpecifier (each node member),
      fun index => meets_literal literal⟩
  | exportAll =>
    simp only [PartsMeet, Form.fields, Fields.all_one, Node.node_tree]
    exact fun index => meets_literal shaped.1
  | breakStatement | continueStatement =>
    simp [PartsMeet, Form.fields, Mode.part, Meets, Inert, Ident.node, above, isName]
  | exportSpecifier =>
    cases mode with
    | evaluate => cases met.1.isNoSpecifier
    | assign => cases met.1.isNoSpecifier
    | declare => simp [Meets, Node.isBinding, Node.isDeclarator] at met
  | _ => exact fun child member => meets_plain above (shaped.2 child member) rfl

theorem omits_of_meets (met : Meets root parent ⟨span, form⟩ (.visited mode)) :
    mode.omits form = false := by
  cases mode with
  | evaluate => rfl
  | assign => rfl
  | declare =>
    cases form with
    | identifier | arrayPattern | objectPattern | assignmentPattern | restElement | property
    | variableDeclarator => rfl
    | _ => simp [Meets, Node.isBinding, Node.isDeclarator] at met

theorem partsMeet_part (above : formAt? root parent = some form) (shaped : form.Shaped)
    {visit : Visit} (met : Meets root parent ⟨span, form⟩ visit) :
    PartsMeet root parent form (visit.part form) := by
  cases visit with
  | skipped => exact partsMeet_skipped span above met
  | exported => exact partsMeet_exported above met
  | visited mode =>
    have visited : (Visit.visited mode).part form = mode.part form := by
      funext field
      simp [Visit.part, omits_of_meets met]
    rw [visited]
    exact partsMeet_visited above shaped met

end Visited

/-! ## Whole programs -/

/-- **Every node of a shaped program is met as the rules ask for.** -/
theorem meets_visitAt {root : Node} (operand : root.Operand) {place : Path} {node : Node}
    (found : root.tree.nodeAt? place = some node) :
    Meets root place node (visitAt root.tree (.visited .evaluate) place) := by
  induction place generalizing node with
  | nil =>
    obtain rfl : root = node := by simpa [Tree.nodeAt?, Tree.at?] using found
    exact meets_evaluate operand.2.2 ⟨rfl, rfl, rfl, rfl⟩
  | cons step parent ih =>
    obtain ⟨span, form, foundParent, child, listed, rfl⟩ :=
      Tree.exists_form_of_nodeAt? root.isView_tree found
    have shaped : form.Shaped := Tree.Everywhere.nodeAt? root.isView_tree operand.1 foundParent
    have above : formAt? root parent = some form := by
      rw [formAt?, foundParent]
      rfl
    rw [visitAt, foundParent]
    exact partsMeet_part above shaped (ih foundParent) (step, child) listed step.index

namespace Analysis

def references (analysis : Analysis) : List Reference :=
  analysis.resolutions.map Resolution.reference

/-- The references that stand at a place. -/
def referencesAt (analysis : Analysis) (place : Path) : List Reference :=
  analysis.references.filter fun reference => reference.occurrence.place = place

end Analysis

def Reference.use (reference : Reference) : Occurrence × Access :=
  (reference.occurrence, reference.access)

theorem Table.references_foldl_step (events : List Event) (table : Table) :
    (events.foldl Table.step table).references.map Reference.use
      = table.references.map Reference.use ++ events.filterMap Event.reference? := by
  induction events generalizing table with
  | nil => simp
  | cons event rest ih =>
    rw [List.foldl_cons, ih]
    cases event with
    | refer => simp [Table.step, Event.reference?, Reference.use]
    | _ => rfl

theorem references_analyze (root : Node) (globals : List String) :
    (analyze root globals).references = (programTable root).references := by
  rw [Analysis.references, resolutions_analyze, List.map_map]
  exact List.map_id _

theorem uses_analyze (root : Node) (globals : List String) :
    (↑((analyze root globals).references.map Reference.use) : Multiset (Occurrence × Access))
      = treeReferences (.visited .evaluate) [] root.tree := by
  rw [references_analyze, programTable, Table.ofEvents, Table.references_foldl_step,
    ← references_events root (.visited .evaluate) false [] Visit.noConfusion]
  rfl

theorem usesAt_analyze (root : Node) (globals : List String) {place : Path} {node : Node}
    (found : root.tree.nodeAt? place = some node) :
    (↑(((analyze root globals).referencesAt place).map Reference.use)
        : Multiset (Occurrence × Access))
      = (visitAt root.tree (.visited .evaluate) place).own place node := by
  have here := atPlace_treeReferences place root.isView_tree (.visited .evaluate) [] found
  rw [List.append_nil, ← uses_analyze root globals, atPlace, Multiset.filter_coe,
    List.filter_map] at here
  exact here

theorem nodeAt?_of_mem_references {root : Node} {globals : List String} {reference : Reference}
    (member : reference ∈ (analyze root globals).references) :
    root.tree.nodeAt? reference.occurrence.place = some reference.occurrence.id.node := by
  have use : reference.use ∈ treeReferences (.visited .evaluate) [] root.tree := by
    rw [← uses_analyze root globals]
    exact Multiset.mem_coe.2 (List.mem_map_of_mem member)
  obtain ⟨rest, place, found⟩ := nodeAt?_of_mem_treeReferences root.tree root.isView_tree use
  rw [List.append_nil] at place
  rw [← place] at found
  exact found

section Identifiers

variable {root : Node} (globals : List String) {place : Path} {id : Ident}
  (found : root.tree.nodeAt? place = some id.node)

include found

theorem referencesAt_eq_nil
    (unused : (visitAt root.tree (.visited .evaluate) place).access? = none) :
    (analyze root globals).referencesAt place = [] := by
  have uses := usesAt_analyze root globals found
  rw [Ident.node, Visit.own, unused, Multiset.coe_eq_zero, List.map_eq_nil_iff] at uses
  exact uses

theorem referencesAt_eq_singleton {access : Access}
    (used : (visitAt root.tree (.visited .evaluate) place).access? = some access) :
    ∃ reference, (analyze root globals).referencesAt place = [reference]
      ∧ reference.occurrence = ⟨place, id⟩ ∧ reference.access = access := by
  have uses := usesAt_analyze root globals found
  rw [Ident.node, Visit.own, used, Multiset.coe_eq_singleton, List.map_eq_singleton_iff] at uses
  obtain ⟨reference, alone, use⟩ := uses
  exact ⟨reference, alone, congrArg Prod.fst use, congrArg Prod.snd use⟩

end Identifiers

theorem eq_node_of_identifier? {node : Node} {name : String}
    (found : node.identifier? = some name) : ∃ id : Ident, node = id.node ∧ id.name = name := by
  obtain ⟨span, form⟩ := node
  cases form with
  | identifier text => exact ⟨⟨span, text⟩, rfl, Option.some.inj found⟩
  | _ => cases found

theorem access?_of_meets {root : Node} {place : Path} {id : Ident} {visit : Visit}
    (met : Meets root place id.node visit) :
    if isExempt root place then visit.access? = none
    else ∃ access, visit.access? = some access
      ∧ (access = .initialWrite ↔ bindingAt? root place = some true) := by
  match visit, met with
  | .skipped, met =>
    have name : isNameAt root place = true := met
    simp [isExempt, name, Visit.access?]
  | .exported, met => cases met.1
  | .visited .evaluate, met =>
    simp [isExempt, met.1.isNoName, met.1.isNotBound, Visit.access?, Access.read,
      Access.initialWrite]
  | .visited (.assign access), met =>
    have later : access ≠ .initialWrite := fun same => by
      have initial := met.2.2
      rw [same] at initial
      cases initial
    simp [isExempt, met.1.isNoName, met.1.isNotBound, Visit.access?, later]
  | .visited (.declare _ _ written), met =>
    rcases met.2 with ⟨_, bound⟩ | ⟨declarator, _⟩
    · cases written <;> simp [isExempt, met.1, bound, Visit.access?]
    · cases declarator

/-- **An identifier refers exactly when it should.** Every reference of a program that can be
read is of an identifier of it. An identifier is exempt if it is a name only or is bound
without a value, and no reference is of it then. Every other identifier is the identifier of
exactly one reference, which is an initial write if it is bound with a value, and only
then. -/
theorem analyze_references {source : String} {root : Node}
    (parsed : Grammar.parse source = .ok root) (globals : List String) :
    (∀ reference ∈ (analyze root globals).references,
      root.tree.nodeAt? reference.occurrence.place = some reference.occurrence.id.node)
    ∧ ∀ (place : Path) (id : Ident), root.tree.nodeAt? place = some id.node →
      if isExempt root place then (analyze root globals).referencesAt place = []
      else ∃ reference, (analyze root globals).referencesAt place = [reference]
        ∧ reference.occurrence = ⟨place, id⟩
        ∧ (reference.access = .initialWrite ↔ bindingAt? root place = some true) := by
  refine ⟨fun reference => nodeAt?_of_mem_references, fun place id found => ?_⟩
  have rule := access?_of_meets (meets_visitAt (Grammar.operand_of_parse parsed) found)
  split
  next exempt =>
    rw [if_pos exempt] at rule
    exact referencesAt_eq_nil globals found rule
  next refers =>
    rw [if_neg refers] at rule
    obtain ⟨access, used, initial⟩ := rule
    obtain ⟨reference, alone, occurrence, same⟩ := referencesAt_eq_singleton globals found used
    exact ⟨reference, alone, occurrence, same ▸ initial⟩

/-- In `for (const [a, [b = c]] of d.e) b;` the identifier `b` of the pattern is written by
the head of the loop. -/
theorem analyze_references_loop : ∃ root,
    Grammar.parse "for (const [a, [b = c]] of d.e) b;" = .ok root
      ∧ ∃ reference, (analyze root []).referencesAt
          [⟨.left, 0⟩, ⟨.elements, 0⟩, ⟨.elements, 1⟩, ⟨.id, 0⟩, ⟨.declarations, 0⟩, ⟨.left, 0⟩,
            ⟨.body, 0⟩] = [reference]
        ∧ reference.name = "b" ∧ reference.access = .initialWrite := by
  have run : ((Grammar.parse "for (const [a, [b = c]] of d.e) b;").toOption.any fun root =>
      let place : Path := [⟨.left, 0⟩, ⟨.elements, 0⟩, ⟨.elements, 1⟩, ⟨.id, 0⟩,
        ⟨.declarations, 0⟩, ⟨.left, 0⟩, ⟨.body, 0⟩]
      (root.tree.nodeAt? place).bind Node.identifier? == some "b"
        && !isExempt root place && bindingAt? root place == some true) = true := by
    decide +kernel
  obtain ⟨root, parsed, run⟩ := Grammar.exists_of_any_parse run
  simp only [Bool.and_eq_true, beq_iff_eq,
    Bool.not_eq_true'] at run
  obtain ⟨⟨name, refers⟩, bound⟩ := run
  obtain ⟨node, found, name⟩ := Option.bind_eq_some_iff.1 name
  obtain ⟨id, rfl, named⟩ := eq_node_of_identifier? name
  have rule := (analyze_references parsed []).2 _ id found
  rw [refers, if_neg Bool.false_ne_true] at rule
  obtain ⟨reference, alone, occurrence, initial⟩ := rule
  have sameName : reference.name = id.name := congrArg (·.id.name) occurrence
  exact ⟨root, parsed, reference, alone, sameName.trans named, initial.2 bound⟩

end TemplateLint.Scope
