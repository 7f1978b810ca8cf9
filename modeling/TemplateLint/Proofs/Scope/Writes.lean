import TemplateLint.Proofs.Grammar.Program
import TemplateLint.Proofs.Scope.References

/-!
# Reads and writes

An identifier may be a target of an assignment, of an update or of the head of a loop, or a part of
such a target, at any depth (`assignedAt?`). In a tidy program the analysis visits every node in
the mode that its being a target asks for (`complies_visitAt`), so targets are written and nothing
else is (`access_of_target`), but for a literal at the head of a loop, which is no pattern
(`loopHead_not_written`).
-/

namespace TemplateLint.Scope

open TemplateLint.Syntax

/-! ## The rules -/

/-- What assigns to a target. -/
inductive Assigner where
  | assignment (operator : AssignOp)
  | update
  | loopHead
  deriving DecidableEq, Repr

/-- A target, or something nested in one as a part of a pattern, or of a literal that stands for
a pattern. -/
structure Target where
  assigner : Assigner
  nested : Bool
  deriving DecidableEq, Repr

namespace Target

def inner (target : Target) : Target := ⟨target.assigner, true⟩

/-- The access to an identifier that is assigned to. -/
def access : Target → Access
  | ⟨.assignment .plain, _⟩ | ⟨.loopHead, false⟩ => .write
  | ⟨.assignment (.compound _), false⟩ | ⟨.update, false⟩ => .readWrite
  | ⟨_, true⟩ => .read

/-- The mode in which a target is visited. -/
def mode (node : Node) (target : Target) : Mode :=
  match target with
  | ⟨.assignment .plain, _⟩ | ⟨.loopHead, false⟩ => .assign .write
  | ⟨.assignment (.compound _), false⟩ => .assign .readWrite
  | ⟨.update, false⟩ => if node.identifier?.isSome then .assign .readWrite else .evaluate
  | ⟨_, true⟩ => .evaluate

theorem omits_mode (node : Node) (target : Target) (form : Form) :
    (target.mode node).omits form = false := by
  obtain ⟨assigner, nested⟩ := target
  cases assigner with
  | assignment operator => cases operator <;> cases nested <;> rfl
  | loopHead => cases nested <;> rfl
  | update =>
    cases nested with
    | true => rfl
    | false =>
      simp only [mode]
      split <;> rfl

/-- What the grammar lets be assigned to. -/
def Suits (node : Node) : Target → Prop
  | ⟨.assignment .plain, _⟩ => node.isTarget = true
  | ⟨.assignment (.compound _), false⟩ | ⟨.loopHead, false⟩ => node.form.standsAlone = true
  | _ => True

end Target

/-- For a part in a field of a form: the target it is. The parts of patterns and of literals are
targets if the whole is (`outer`). -/
def assigned? (field : Field) (outer : Option Target) : Form → Option Target
  | .assignment _ operator _ =>
    if field = .left then some ⟨.assignment operator, false⟩ else none
  | .update .. => some ⟨.update, false⟩
  | .forInStatement .. | .forOfStatement .. =>
    if field = .left then some ⟨.loopHead, false⟩ else none
  | .arrayPattern _ | .objectPattern _ | .restElement _ | .arrayExpression _
  | .objectExpression _ | .spreadElement _ => outer.map Target.inner
  | .assignmentPattern .. => if field = .left then outer.map Target.inner else none
  | .property .. => if field = .value then outer.map Target.inner else none
  | _ => none

/-- The target that stands at a place, if one does. -/
def assignedAt? (root : Node) : Path → Option Target
  | [] => none
  | step :: parent => (formAt? root parent).bind (assigned? step.field (assignedAt? root parent))

@[simp] theorem assignedAt?_cons (root : Node) (step : Step) (parent : Path) :
    assignedAt? root (step :: parent)
      = (formAt? root parent).bind (assigned? step.field (assignedAt? root parent)) := rfl

/-! ## How targets are visited -/

/-- A node is visited in the mode that its being a target asks for, and no other node is assigned
to. -/
def Complies (node : Node) : Option Target → Visit → Prop
  | some target, visit => visit = .visited (target.mode node) ∧ target.Suits node
  | none, visit => ∀ access, visit ≠ .visited (.assign access)

/-- Forms that assign to none of their parts, however they are visited. -/
def passesOver : Form → Bool
  | .assignment .. | .update .. | .forInStatement .. | .forOfStatement .. | .arrayPattern _
  | .objectPattern _ | .restElement _ | .assignmentPattern .. | .property ..
  | .variableDeclarator .. => false
  | _ => true

theorem Mode.part_ne_assign {form : Form} (passes : passesOver form = true) (mode : Mode)
    (field : Field) (access : Access) : mode.part form field ≠ .visited (.assign access) := by
  cases form with
  | assignment | update | forInStatement | forOfStatement | arrayPattern | objectPattern
  | restElement | assignmentPattern | property | variableDeclarator => cases passes
  | methodDefinition _ _ _ _ _ computed | classProperty _ _ _ _ computed | member _ _ computed =>
    cases computed <;> simp only [Mode.part, Visit.evaluatedIf] <;> split <;> simp
  | variableDeclaration => simp [Mode.part, Mode.declarators]
  | exportNamed | function =>
    simp only [Mode.part]
    repeat' split
    all_goals simp
  | arrowFunction | classDefinition | catchClause | labeledStatement | jsxElement | jsxOpening
  | jsxAttribute =>
    simp only [Mode.part]
    split <;> simp
  | _ => simp [Mode.part]

theorem Visit.part_ne_assign {form : Form} (passes : passesOver form = true) (visit : Visit)
    (field : Field) (access : Access) : visit.part form field ≠ .visited (.assign access) := by
  cases visit with
  | skipped => simp [Visit.part]
  | visited mode =>
    rw [Visit.part]
    split
    · simp
    · exact mode.part_ne_assign passes field access
  | exported =>
    cases form with
    | exportSpecifier =>
      simp only [Visit.part]
      split <;> simp
    | _ => simp [Visit.part]

def Visit.inner : Visit → Visit
  | .visited mode => .visited mode.inner
  | _ => .skipped

section Parts

variable {node child : Node} {outer : Option Target} {visit : Visit}

theorem complies_inner (complies : Complies node outer visit)
    (pattern : node.form.standsAlone = false) (noName : node.identifier? = none)
    (inherits : node.isTarget = true → child.isTarget = true) :
    Complies child (outer.map Target.inner) visit.inner := by
  cases outer with
  | none =>
    intro access assigned
    cases visit with
    | skipped | exported => cases assigned
    | visited mode =>
      cases mode with
      | assign before => exact complies before rfl
      | evaluate | declare => cases assigned
  | some target =>
    obtain ⟨rfl, suits⟩ := complies
    obtain ⟨assigner, nested⟩ := target
    cases assigner with
    | assignment operator =>
      cases operator with
      | plain => exact ⟨rfl, inherits suits⟩
      | compound =>
        cases nested with
        | false => simp [Target.Suits, pattern] at suits
        | true => exact ⟨rfl, trivial⟩
    | loopHead =>
      cases nested with
      | false => simp [Target.Suits, pattern] at suits
      | true => exact ⟨rfl, trivial⟩
    | update =>
      cases nested with
      | false =>
        refine ⟨?_, trivial⟩
        simp [Target.mode, noName, Visit.inner, Mode.inner, Target.inner]
      | true => exact ⟨rfl, trivial⟩

theorem complies_literal (complies : Complies node outer visit)
    (literal : node.isTarget = false) (passes : passesOver node.form = true) {field : Field}
    (part : ∀ mode : Mode, mode.part node.form field = .visited .evaluate) :
    Complies child (outer.map Target.inner) (visit.part node.form field) := by
  cases outer with
  | none => exact fun access => visit.part_ne_assign passes field access
  | some target =>
    obtain ⟨rfl, suits⟩ := complies
    have evaluated : (Visit.visited (target.mode node)).part node.form field
        = .visited .evaluate := by
      simp [Visit.part, target.omits_mode, part]
    rw [evaluated]
    obtain ⟨assigner, nested⟩ := target
    cases assigner with
    | assignment operator =>
      cases operator with
      | plain => simp [Target.Suits, literal] at suits
      | compound => exact ⟨rfl, trivial⟩
    | loopHead | update => exact ⟨rfl, trivial⟩

end Parts

/-- Every part that is assigned to is visited in the mode of its target. -/
def PartsComply (outer : Option Target) (visit : Visit) (form : Form) : Prop :=
  form.fields.All fun field tree =>
    Complies tree.node (assigned? field outer form) (visit.part form field)

theorem Visit.part_eq_inner {form : Form} {field : Field} (pattern : isPatternPart form = true)
    (part : ∀ mode : Mode, mode.part form field = .visited mode.inner)
    (exported : Visit.exported.part form field = .skipped) (visit : Visit) :
    visit.part form field = visit.inner := by
  cases visit with
  | skipped => rfl
  | exported => exact exported
  | visited mode => simp [Visit.part, Mode.omits, pattern, part, Visit.inner]

section Patterns

variable {outer : Option Target} {visit : Visit} {span : Span} {form : Form}
  (complies : Complies ⟨span, form⟩ outer visit)

include complies

theorem partsComply_arrayPattern {elements : List (Option Node)}
    (is : form = .arrayPattern elements) : PartsComply outer visit form := by
  subst is
  simp only [PartsComply, Form.fields, Fields.all_treesOf?, Node.node_tree]
  intro element member
  rw [visit.part_eq_inner rfl (fun _ => rfl) rfl]
  refine complies_inner complies rfl rfl fun target => ?_
  rw [Node.isTarget, allTargets?_iff] at target
  exact target element member

theorem partsComply_objectPattern {properties : List Node} (is : form = .objectPattern properties) :
    PartsComply outer visit form := by
  subst is
  simp only [PartsComply, Form.fields, Fields.all_treesOf, Node.node_tree]
  intro property member
  rw [visit.part_eq_inner rfl (fun _ => rfl) rfl]
  refine complies_inner complies rfl rfl fun target => ?_
  rw [Node.isTarget, allTargets_iff] at target
  exact target property member

theorem partsComply_restElement {argument : Node} (is : form = .restElement argument) :
    PartsComply outer visit form := by
  subst is
  simp only [PartsComply, Form.fields, Fields.all_one, Node.node_tree]
  rw [visit.part_eq_inner rfl (fun _ => rfl) rfl]
  exact complies_inner complies rfl rfl id

theorem partsComply_assignmentPattern {left right : Node}
    (is : form = .assignmentPattern left right) : PartsComply outer visit form := by
  subst is
  simp only [PartsComply, Form.fields, Fields.all_append, Fields.all_one, Node.node_tree]
  refine ⟨?_, ?_⟩
  · rw [visit.part_eq_inner rfl (fun _ => rfl) rfl]
    exact complies_inner complies rfl rfl id
  · intro access
    cases visit with
    | skipped | exported => simp [Visit.part]
    | visited mode => simp [Visit.part, Mode.omits, isPatternPart, Mode.part]

theorem partsComply_property {key value : Node} {style : PropertyStyle} {computed : Bool}
    (is : form = .property key value style computed) : PartsComply outer visit form := by
  subst is
  simp only [PartsComply, Form.fields, Fields.all_append, Fields.all_one, Fields.all_text,
    Fields.all_flag, Node.node_tree, and_true]
  refine ⟨?_, ?_⟩
  · intro access
    cases visit with
    | skipped | exported => simp [Visit.part]
    | visited mode =>
      cases computed <;> simp [Visit.part, Mode.omits, isPatternPart, Mode.part, Visit.evaluatedIf]
  · rw [visit.part_eq_inner rfl (fun _ => rfl) rfl]
    exact complies_inner complies rfl rfl id

theorem partsComply_variableDeclarator {target : Node} {init : Option Node}
    (is : form = .variableDeclarator target init) : PartsComply outer visit form := by
  subst is
  have unassigned : ∀ access, visit ≠ .visited (.assign access) := by
    cases outer with
    | none => exact complies
    | some whole =>
      obtain ⟨rfl, suits⟩ := complies
      obtain ⟨assigner, nested⟩ := whole
      cases assigner with
      | assignment operator =>
        cases operator with
        | plain => cases suits
        | compound =>
          cases nested with
          | false => cases suits
          | true => simp [Target.mode]
      | loopHead =>
        cases nested with
        | false => cases suits
        | true => simp [Target.mode]
      | update => cases nested <;> simp [Target.mode, Node.identifier?]
  simp only [PartsComply, Form.fields, Fields.all_append, Fields.all_one, Fields.all_treeOf?,
    Node.node_tree]
  cases visit with
  | skipped | exported => simp [Visit.part, assigned?, Complies]
  | visited mode =>
    cases mode with
    | assign access => exact absurd rfl (unassigned access)
    | evaluate | declare =>
      simp [Visit.part, Mode.omits, isPatternPart, Mode.part, Mode.withValue, assigned?, Complies]

end Patterns

/-! ## What assigns -/

section Assigners

variable {root : Node} {parent : Path} {outer : Option Target} {visit : Visit} {span : Span}
  {form : Form}

theorem exists_mode_of_meets (met : Meets root parent ⟨span, form⟩ visit)
    (active : ¬ Inert root parent ⟨span, form⟩)
    (noSpecifier : Node.isExportSpecifier ⟨span, form⟩ = false) :
    ∃ mode : Mode, ∀ field, visit.part form field = mode.part form field := by
  cases visit with
  | skipped => exact absurd met active
  | exported => exact absurd met.1 (Bool.eq_false_iff.1 noSpecifier)
  | visited mode => exact ⟨mode, fun field => by simp [Visit.part, omits_of_meets met]⟩

theorem partsComply_assignment {left right : Node} {operator : AssignOp}
    (met : Meets root parent ⟨span, .assignment left operator right⟩ visit)
    (tidy : (Form.assignment left operator right).Tidy) :
    PartsComply outer visit (.assignment left operator right) := by
  obtain ⟨mode, part⟩ := exists_mode_of_meets met id rfl
  simp only [PartsComply, Form.fields, Fields.all_append, Fields.all_one, Fields.all_text,
    Node.node_tree, and_true, part]
  refine ⟨?_, by simp [assigned?, Complies, Mode.part]⟩
  cases operator with
  | plain => exact ⟨rfl, tidy⟩
  | compound => exact ⟨rfl, tidy⟩

theorem partsComply_update {operator : String} {argument : Node} {leading : Bool}
    (met : Meets root parent ⟨span, .update operator argument leading⟩ visit) :
    PartsComply outer visit (.update operator argument leading) := by
  obtain ⟨mode, part⟩ := exists_mode_of_meets met id rfl
  simp only [PartsComply, Form.fields, Fields.all_append, Fields.all_one, Fields.all_text,
    Fields.all_flag, Node.node_tree, and_true, true_and, part]
  exact ⟨rfl, trivial⟩

theorem partsComply_loop {left right body : Node}
    (loop : form = .forInStatement left right body ∨ form = .forOfStatement left right body)
    (met : Meets root parent ⟨span, form⟩ visit) (tidy : form.Tidy) :
    PartsComply outer visit form := by
  rcases loop with rfl | rfl
  all_goals
    obtain ⟨mode, part⟩ := exists_mode_of_meets met id rfl
    simp only [PartsComply, Form.fields, Fields.all_append, Fields.all_one, Node.node_tree, part]
    refine ⟨⟨⟨rfl, tidy⟩, ?_⟩, ?_⟩ <;> simp [assigned?, Complies, Mode.part]

/-- **What a form asks of its parts.** -/
theorem partsComply_part (met : Meets root parent ⟨span, form⟩ visit) (tidy : form.Tidy)
    (complies : Complies ⟨span, form⟩ outer visit) : PartsComply outer visit form := by
  cases form with
  | arrayPattern => exact partsComply_arrayPattern complies rfl
  | objectPattern => exact partsComply_objectPattern complies rfl
  | restElement => exact partsComply_restElement complies rfl
  | assignmentPattern => exact partsComply_assignmentPattern complies rfl
  | property => exact partsComply_property complies rfl
  | variableDeclarator => exact partsComply_variableDeclarator complies rfl
  | assignment => exact partsComply_assignment met tidy
  | update => exact partsComply_update met
  | forInStatement => exact partsComply_loop (.inl rfl) met tidy
  | forOfStatement => exact partsComply_loop (.inr rfl) met tidy
  | arrayExpression | objectExpression | spreadElement =>
    exact fun child member => complies_literal complies rfl rfl fun _ => rfl
  | _ => exact fun child member access => visit.part_ne_assign rfl child.1.field access

end Assigners

/-! ## Whole programs -/

/-- **Every node of a tidy program is visited in the mode that its being a target asks for.** -/
theorem complies_visitAt {root : Node} (operand : root.Operand) (tidy : root.Tidy) {place : Path}
    {node : Node} (found : root.tree.nodeAt? place = some node) :
    Complies node (assignedAt? root place) (visitAt root.tree (.visited .evaluate) place) := by
  induction place generalizing node with
  | nil => exact fun access => by simp [visitAt]
  | cons step parent ih =>
    obtain ⟨span, form, foundParent, child, listed, rfl⟩ :=
      Tree.exists_form_of_nodeAt? root.isView_tree found
    have here : form.Tidy := (Tree.Everywhere.nodeAt? root.isView_tree tidy foundParent).1
    have above : formAt? root parent = some form := by
      rw [formAt?, foundParent]
      rfl
    rw [assignedAt?_cons, above, visitAt, foundParent]
    exact partsComply_part (meets_visitAt operand foundParent) here (ih foundParent) (step, child)
      listed

section Identifiers

variable {root : Node} (globals : List String) {place : Path} {id : Ident}

/-- The identifier at a place is the identifier of exactly one reference, which does the given
thing with its variable. -/
def Analysis.UsesAs (analysis : Analysis) (place : Path) (id : Ident) (access : Access) : Prop :=
  ∃ reference, analysis.referencesAt place = [reference]
    ∧ reference.occurrence = ⟨place, id⟩ ∧ reference.access = access

theorem access?_of_complies {target : Target} {visit : Visit}
    (complies : Complies id.node (some target) visit) : visit.access? = some target.access := by
  obtain ⟨rfl, _⟩ := complies
  obtain ⟨assigner, nested⟩ := target
  cases assigner with
  | assignment operator => cases operator <;> cases nested <;> rfl
  | loopHead | update => cases nested <;> rfl

theorem access?_of_not_assigned {visit : Visit} (met : Meets root place id.node visit)
    (complies : Complies id.node none visit) (refers : isExempt root place = false)
    (unbound : bindingAt? root place = none) : visit.access? = some .read := by
  have rule := access?_of_meets met
  rw [refers, if_neg Bool.false_ne_true] at rule
  obtain ⟨access, used, initial⟩ := rule
  cases visit with
  | skipped | exported => cases used
  | visited mode =>
    cases mode with
    | evaluate => rfl
    | assign access => exact absurd rfl (complies access)
    | declare kind hoisted written =>
      cases written with
      | false => cases used
      | true =>
        have bound := initial.1 (Option.some.inj used).symm
        rw [unbound] at bound
        cases bound

end Identifiers

/-- The part in a field of a form is evaluated even if the form is a part of a pattern: a default,
a computed key, or a part of a member expression. -/
def isAside (field : Field) : Form → Bool
  | .assignmentPattern .. => field == .right
  | .property _ _ _ computed => field == .key && computed
  | .member _ _ computed => field == .object || field == .property && computed
  | _ => false

theorem not_assigned_of_isAside {root : Node} {step : Step} {parent : Path} {form : Form}
    (above : formAt? root parent = some form) (aside : isAside step.field form = true) :
    assignedAt? root (step :: parent) = none ∧ isExempt root (step :: parent) = false
      ∧ bindingAt? root (step :: parent) = none := by
  cases form with
  | assignmentPattern =>
    have right : step.field = .right := by simpa [isAside] using aside
    simp [above, isExempt, isName, binding?, assigned?, right]
  | property _ _ _ computed =>
    obtain ⟨key, rfl⟩ : step.field = .key ∧ computed = true := by simpa [isAside] using aside
    simp [above, isExempt, isName, binding?, assigned?, key]
  | member _ _ computed =>
    have part : step.field = .object ∨ step.field = .property ∧ computed = true := by
      simpa [isAside] using aside
    rcases part with object | ⟨property, rfl⟩
    · simp [above, isExempt, isName, binding?, assigned?, object]
    · simp [above, isExempt, isName, binding?, assigned?, property]
  | _ => cases aside

/-- **What assigns writes, and what does not reads.** Every identifier that is the target of a plain
assignment, at any depth of a pattern, is written and not read. So is one that is the head of a
loop over keys or elements, whereas one inside a literal at the head is read. An identifier that is
the target of a compound assignment or of an update is read and written. Defaults, computed keys
and the parts of member expressions are read, and so is every other identifier that refers and is
not bound where it stands. -/
theorem access_of_target {source : String} {root : Node} (parsed : Grammar.parse source = .ok root)
    (globals : List String) {place : Path} {id : Ident}
    (found : root.tree.nodeAt? place = some id.node) :
    let uses := (analyze root globals).UsesAs place id
    (∀ nested, assignedAt? root place = some ⟨.assignment .plain, nested⟩ → uses .write)
    ∧ (assignedAt? root place = some ⟨.loopHead, false⟩ → uses .write)
    ∧ (assignedAt? root place = some ⟨.loopHead, true⟩ → uses .read)
    ∧ (∀ op, assignedAt? root place = some ⟨.assignment (.compound op), false⟩ → uses .readWrite)
    ∧ (assignedAt? root place = some ⟨.update, false⟩ → uses .readWrite)
    ∧ (∀ step parent form, place = step :: parent → formAt? root parent = some form →
      isAside step.field form = true → uses .read)
    ∧ (assignedAt? root place = none → isExempt root place = false →
      bindingAt? root place = none → uses .read) := by
  intro uses
  have operand := Grammar.operand_of_parse parsed
  have met := meets_visitAt operand found
  have complies := complies_visitAt operand (Grammar.tidy_of_parse parsed) found
  have assigned : ∀ target, assignedAt? root place = some target → uses target.access := by
    intro target stands
    rw [stands] at complies
    exact referencesAt_eq_singleton globals found (access?_of_complies complies)
  have evaluated : assignedAt? root place = none → isExempt root place = false →
      bindingAt? root place = none → uses .read := by
    intro none refers unbound
    rw [none] at complies
    exact referencesAt_eq_singleton globals found
      (access?_of_not_assigned met complies refers unbound)
  refine ⟨fun nested => assigned _, assigned _, assigned _, fun op => assigned _, assigned _, ?_,
    evaluated⟩
  rintro step parent form rfl above aside
  obtain ⟨none, refers, unbound⟩ := not_assigned_of_isAside above aside
  exact evaluated none refers unbound

/-- In `[a, {[k]: c = d}, ...e.f] = g;` the identifier `c` is written and `k` is read. -/
theorem access_of_target_pattern : ∃ root, Grammar.parse "[a, {[k]: c = d}, ...e.f] = g;" = .ok root
    ∧ ∃ member : Path, ∃ first second : Ident, first.name = "c" ∧ second.name = "k"
      ∧ (analyze root []).UsesAs (⟨.left, 0⟩ :: ⟨.value, 0⟩ :: member) first .write
      ∧ (analyze root []).UsesAs (⟨.key, 0⟩ :: member) second .read := by
  have run : ((Grammar.parse "[a, {[k]: c = d}, ...e.f] = g;").toOption.any fun root =>
      let member : Path :=
        [⟨.properties, 0⟩, ⟨.elements, 1⟩, ⟨.left, 0⟩, ⟨.expression, 0⟩, ⟨.body, 0⟩]
      (root.tree.nodeAt? (⟨.left, 0⟩ :: ⟨.value, 0⟩ :: member)).bind Node.identifier? == some "c"
        && assignedAt? root (⟨.left, 0⟩ :: ⟨.value, 0⟩ :: member)
          == some ⟨.assignment .plain, true⟩
        && (root.tree.nodeAt? (⟨.key, 0⟩ :: member)).bind Node.identifier? == some "k"
        && (formAt? root member).any (isAside .key)) = true := by
    decide +kernel
  obtain ⟨root, parsed, run⟩ := Grammar.exists_of_any_parse run
  simp only [Bool.and_eq_true, beq_iff_eq] at run
  obtain ⟨⟨⟨first, target⟩, second⟩, aside⟩ := run
  obtain ⟨node, foundFirst, name⟩ := Option.bind_eq_some_iff.1 first
  obtain ⟨c, rfl, namedC⟩ := eq_node_of_identifier? name
  obtain ⟨node, foundSecond, name⟩ := Option.bind_eq_some_iff.1 second
  obtain ⟨k, rfl, namedK⟩ := eq_node_of_identifier? name
  obtain ⟨form, above, aside⟩ := (Option.any_eq_true _ _).1 aside
  obtain ⟨written, _⟩ := access_of_target parsed [] foundFirst
  obtain ⟨_, _, _, _, _, read, _⟩ := access_of_target parsed [] foundSecond
  exact ⟨root, parsed, _, c, k, namedC, namedK, written true target,
    read _ _ form rfl above aside⟩

/-- In `for ([a] of b) ;` the identifier `a` is a target of the head of the loop, but it is read and
not written. -/
theorem loopHead_not_written : ∃ root, Grammar.parse "for ([a] of b) ;" = .ok root
    ∧ ∃ place, assignedAt? root place = some ⟨.loopHead, true⟩
      ∧ ((analyze root []).referencesAt place).map (fun reference =>
          (reference.name, reference.access)) = [("a", .read)] := by
  have run : ((Grammar.parse "for ([a] of b) ;").toOption.any fun root =>
      let place : Path := [⟨.elements, 0⟩, ⟨.left, 0⟩, ⟨.body, 0⟩]
      assignedAt? root place == some ⟨.loopHead, true⟩
        && ((analyze root []).referencesAt place).map (fun reference =>
          (reference.name, reference.access)) == [("a", .read)]) = true := by
    decide +kernel
  obtain ⟨root, parsed, run⟩ := Grammar.exists_of_any_parse run
  simp only [Bool.and_eq_true, beq_iff_eq] at run
  exact ⟨root, parsed, _, run⟩

end TemplateLint.Scope
