import TemplateLint.Proofs.Scope.Balance
import TemplateLint.Proofs.Syntax.Tidy

/-!
# What is evaluated declares nothing around it

Events are confined to some regions if they declare names in these and in the regions that they
enter themselves (`Confined`). All events of a node are, if one of the regions takes hoisted
variables (`confined_of_hoists`); and the events of a tidy node that cannot declare anything are,
whatever the regions are (`confined_evaluated`). So **to evaluate such a node changes no scope that
is there, but adds scopes and references** (`Table.kept_of_evaluated`).
-/

namespace TemplateLint.Scope

open TemplateLint.Syntax
open TemplateLint.Syntax.Fields (one optional many sparse text texts flag literal treeOf)

/-! ## Confined events -/

/-- One of the regions takes hoisted variables. -/
def hoistsWithin (around : List Region) : Bool := around.any fun region => region.kind.hoists

/-- The event declares nothing, and leaves nothing, but what is given. -/
def Event.isConfined (around : List Region) : Event → Bool
  | .declare hoisted .. => if hoisted then hoistsWithin around else !around.isEmpty
  | .leave => !around.isEmpty
  | _ => true

/-- Every event in turn is confined to the given regions and those entered before it. -/
def Confined (around : List Region) : List Event → Prop
  | [] => True
  | event :: rest => event.isConfined around = true ∧ Confined (event.move around) rest

section Events

variable {around : List Region}

@[simp] theorem confined_nil : Confined around [] := trivial

@[simp] theorem confined_append (first second : List Event) :
    Confined around (first ++ second)
      ↔ Confined around first ∧ Confined (regionsAfter around first) second := by
  induction first generalizing around with
  | nil => simp [regionsAfter]
  | cons event rest ih => simp [Confined, ih, regionsAfter, and_assoc]

theorem confined_inScope {kind : ScopeKind} {block : Path} {events : List Event}
    (settled : regionsAfter (⟨kind, block⟩ :: around) events = ⟨kind, block⟩ :: around)
    (inside : Confined (⟨kind, block⟩ :: around) events) :
    Confined around (inScope kind block events) := by
  have last : Confined (⟨kind, block⟩ :: around) [.leave] := ⟨rfl, trivial⟩
  exact ⟨rfl, (confined_append events [.leave]).2 ⟨inside, settled.symm ▸ last⟩⟩

theorem confined_partEvents {mode : Mode} {form : Form} {here : Path} {fields : Fields}
    (each : fields.All fun field tree => ∀ here, Confined around
      ((mode.part form field).events (holdsBody form field) here tree.node)) :
    Confined around (partEvents mode form here fields) := by
  obtain ⟨layout, children⟩ := fields
  rw [partEvents]
  induction children with
  | nil => trivial
  | cons child rest ih =>
    obtain ⟨first, others⟩ := List.forall_mem_cons.1 each
    rw [List.flatMap_cons, confined_append, regionsAfter_events]
    exact ⟨first _, ih others⟩

end Events

/-! ## Regions that take hoisted variables -/

theorem isConfined_of_hoists {around : List Region} (hoists : hoistsWithin around = true)
    (event : Event) : event.isConfined around = true := by
  have filled : around ≠ [] := by
    rintro rfl
    cases hoists
  cases event with
  | declare hoisted => cases hoisted <;> simp [Event.isConfined, hoists, filled]
  | leave => simpa [Event.isConfined] using filled
  | _ => rfl

/-- Events that tell two regions apart never leave these: after that nothing would differ. -/
theorem confined_of_ne {around : List Region} (hoists : hoistsWithin around = true)
    (first second : Region) {events : List Event} (inner : List Region)
    (differ : regionsAfter (inner ++ [first]) events ≠ regionsAfter (inner ++ [second]) events) :
    Confined (inner ++ around) events := by
  induction events generalizing inner with
  | nil => trivial
  | cons event rest ih =>
    have within : hoistsWithin (inner ++ around) = true := by
      rw [hoistsWithin, List.any_append]
      exact Bool.or_eq_true_iff.2 (.inr hoists)
    refine ⟨isConfined_of_hoists within event, ?_⟩
    cases event with
    | enter kind block => exact ih (⟨kind, block⟩ :: inner) differ
    | leave =>
      cases inner with
      | nil => exact absurd rfl differ
      | cons region inner => exact ih inner differ
    | declare | refer | exported => exact ih inner differ

/-- **Where hoisted variables go to one of the regions, all events are confined to them.** -/
theorem confined_of_hoists {around : List Region} (hoists : hoistsWithin around = true)
    (visit : Visit) (isBody : Bool) (here : Path) (node : Node) :
    Confined around (visit.events isBody here node) := by
  refine confined_of_ne hoists ⟨.block, []⟩ ⟨.loop, []⟩ [] ?_
  simp

/-! ## Nodes that cannot declare anything -/

def Mode.isDeclare : Mode → Bool
  | .declare .. => true
  | _ => false

def Visit.isDeclare : Visit → Bool
  | .visited mode => mode.isDeclare
  | _ => false

@[simp] theorem Mode.isDeclare_evaluate : Mode.evaluate.isDeclare = false := rfl

@[simp] theorem Mode.isDeclare_assign (access : Access) :
    (Mode.assign access).isDeclare = false := rfl

@[simp] theorem Visit.isDeclare_skipped : Visit.skipped.isDeclare = false := rfl

@[simp] theorem Visit.isDeclare_visited (mode : Mode) :
    (Visit.visited mode).isDeclare = mode.isDeclare := rfl

@[simp] theorem Mode.isDeclare_inner (mode : Mode) : mode.inner.isDeclare = mode.isDeclare := by
  cases mode <;> rfl

@[simp] theorem Mode.isDeclare_withValue (hasValue : Bool) (mode : Mode) :
    (mode.withValue hasValue).isDeclare = mode.isDeclare := by
  cases mode <;> rfl

@[simp] theorem Visit.isDeclare_evaluatedIf (condition : Bool) :
    (evaluatedIf condition).isDeclare = false := by
  cases condition <;> rfl

/-- The parameters of functions aside, no part of what cannot declare anything is declared. -/
theorem isDeclare_part {form : Form} {mode : Mode} (evaluated : mode.isDeclare = false)
    (closed : form.canDeclare = false) (plain : holdsBody form .body = false) (field : Field) :
    (mode.part form field).isDeclare = false := by
  cases form with
  | function | arrowFunction => cases plain
  | variableDeclaration | importDeclaration | exportNamed | exportDefault | block | ifStatement
  | forStatement | forInStatement | forOfStatement | whileStatement | doWhileStatement
  | switchStatement | switchCase | labeledStatement | tryStatement | catchClause => cases closed
  | update =>
    simp only [Mode.part]
    split <;> rfl
  | _ =>
    simp only [Mode.part]
    repeat' split
    all_goals simp [evaluated]

/-- A node that cannot declare anything declares nothing outside its own regions, if it is not
visited as a declaration. -/
def Node.ConfinedEvaluated (node : Node) : Prop :=
  node.Tidy → node.form.canDeclare = false → ∀ (visit : Visit), visit.isDeclare = false →
    ∀ isBody here around, Confined around (visit.events isBody here node)

theorem confined_arrangement_of_closed {span : Span} {form : Form} {mode : Mode}
    {around : List Region} (tidy : Node.Tidy ⟨span, form⟩) (closed : form.canDeclare = false)
    (evaluated : mode.isDeclare = false) (isBody : Bool) (here : Path)
    (parts : form.fields.All fun _ tree => Node.ConfinedEvaluated tree.node) :
    Confined around (arrangement mode isBody here span form (partEvents mode form here)) := by
  obtain ⟨⟨-, confines⟩, tidies⟩ := (Node.tidy_iff span form).1 tidy
  have inner : ∀ {around : List Region} {fields : Fields}, hoistsWithin around = true →
      Confined around (partEvents mode form here fields) := fun hoists =>
    confined_partEvents fun child _ here => confined_of_hoists hoists _ _ here _
  have each : holdsBody form .body = false → (∀ field, form.encloses field = false) →
      form.fields.All fun field tree => ∀ around here, Confined around
        ((mode.part form field).events (holdsBody form field) here tree.node) := by
    intro plain within child member around here
    -- a part that can declare would need a form that can, or a field that encloses it
    have still : child.2.node.form.canDeclare = false := by
      rw [← Bool.not_eq_true]
      intro declares
      have taken := confines child member declares
      rw [closed, within] at taken
      cases taken
    exact parts child member (tidies child member) still _
      (isDeclare_part evaluated closed plain _) _ here _
  cases form with
  | identifier name =>
    cases mode with
    | evaluate | assign => exact ⟨rfl, trivial⟩
    | declare => cases evaluated
  | program | arrowFunction => exact confined_inScope (by simp) (inner rfl)
  | function role id =>
    cases role with
    | declaration => cases closed
    | expression =>
      -- a function takes hoisted variables, so nothing leaves it
      have function : ∀ around fields, Confined around (inScope .function here
          (.declare false "arguments" .implicit none :: partEvents mode _ here fields)) :=
        fun around fields => confined_inScope (by simp) ⟨rfl, inner rfl⟩
      cases id with
      | none => exact function _ _
      | some id => exact confined_inScope (by simp) ⟨rfl, function _ _⟩
  | classDefinition role decorators id superClass body =>
    cases role with
    | declaration => cases closed
    | expression =>
      have each := each rfl fun _ => rfl
      simp only [Form.fields, Fields.all_append] at each
      have named : Confined (⟨.classBody, here⟩ :: around) (nameEvents here .className id) := by
        cases id with
        | none => trivial
        | some id => exact ⟨rfl, trivial⟩
      simp only [arrangement, confined_append, regionsAfter_append, regionsAfter_partEvents]
      refine ⟨⟨⟨confined_partEvents fun child member => each.1.1.1 child member _, trivial⟩,
        confined_partEvents fun child member => each.1.2 child member _⟩,
        confined_inScope (by simp) ((confined_append _ _).2 ⟨named, ?_⟩)⟩
      rw [regionsAfter_nameEvents]
      exact confined_partEvents fun child member => each.2 child member _
  | variableDeclaration | importDeclaration | exportNamed | exportDefault | block | ifStatement
  | forStatement | forInStatement | forOfStatement | whileStatement | doWhileStatement
  | switchStatement | switchCase | labeledStatement | tryStatement | catchClause => cases closed
  | _ => exact confined_partEvents fun child member => each rfl (fun _ => rfl) child member _

/-- **The events of a node that cannot declare anything are confined to the scopes that they
enter.** The bodies of functions can, inside the scopes of their functions. -/
theorem confined_evaluated (node : Node) : Node.ConfinedEvaluated node := by
  have views := Tree.view_induction (motive := fun tree => Node.ConfinedEvaluated tree.node)
    fun span form parts => ?_
  · simpa using views node.tree node.isView_tree
  rw [Node.node_tree]
  intro tidy closed visit evaluated isBody here around
  cases visit with
  | skipped | exported => trivial
  | visited mode =>
    rw [events_visited_eq]
    split
    · trivial
    · rw [Node.tree] at parts
      exact confined_arrangement_of_closed tidy closed evaluated isBody here parts

/-! ## Tables -/

theorem Scopes.map_kind_declare (scopes : Scopes) (target : Nat) (name : String)
    (kind : VariableKind) (definition : Option Occurrence) (number : Nat) :
    ((scopes.declare target name kind definition)[number]?).map LexicalScope.kind
      = (scopes[number]?).map LexicalScope.kind := by
  rw [Scopes.getElem?_declare, Option.map_map]
  congr 1
  funext scope
  by_cases same : target = number <;> simp [same]

namespace Table

/-- The table holds the scopes of an earlier one as they were, and is inside scopes of the given
regions that were entered since. -/
structure Since (base : Table) (around : List Region) (table : Table) : Prop where
  formed : table.WellFormed
  kept : ∀ (number : Nat) (scope : LexicalScope),
    base.scopes[number]? = some scope → table.scopes[number]? = some scope
  entered : ∃ inner, table.scopes.chain table.current = inner ++ base.scopes.chain base.current
    ∧ List.Forall₂ (fun number region => base.scopes.length ≤ number
      ∧ (table.scopes[number]?).map LexicalScope.kind = some region.kind) inner around

variable {base table : Table} {around : List Region}

theorem since_self (formed : base.WellFormed) : Since base [] base where
  formed := formed
  kept _ _ found := found
  entered := ⟨[], rfl, .nil⟩

namespace Since

variable (since : Since base around table)

include since

theorem length_le : base.scopes.length ≤ table.scopes.length := by
  by_contra shorter
  have kept := since.kept table.scopes.length _
    (List.getElem?_eq_getElem (Nat.lt_of_not_le shorter))
  exact Nat.lt_irrefl _ (List.getElem?_eq_some_iff.1 kept).1

theorem enter (kind : ScopeKind) (block : Path) :
    Since base (⟨kind, block⟩ :: around) (table.step (.enter kind block)) := by
  obtain ⟨inner, chained, known⟩ := since.entered
  have earlier : ∀ {number : Nat} {scope : LexicalScope}, table.scopes[number]? = some scope →
      (table.step (.enter kind block)).scopes[number]? = some scope := fun found =>
    (List.getElem?_append_left (List.getElem?_eq_some_iff.1 found).1).trans found
  have new : (table.step (.enter kind block)).scopes[table.scopes.length]?
      = some ⟨kind, block, table.scopes.chain table.current, []⟩ := List.getElem?_concat_length
  refine ⟨wellFormed_step since.formed _, fun number scope found => earlier (since.kept _ _ found),
    table.scopes.length :: inner, ?_, .cons ⟨since.length_le, by rw [new]; rfl⟩ (known.imp ?_)⟩
  · show Scopes.chain _ table.scopes.length = _
    rw [Scopes.chain, new, List.cons_append, ← chained]
    rfl
  · rintro number region ⟨later, same⟩
    obtain ⟨scope, found, kind⟩ := Option.map_eq_some_iff.1 same
    exact ⟨later, by rw [earlier found, Option.map_some, kind]⟩

/-- The scopes around an inner one are those of the one directly around it. -/
theorem leave (filled : around ≠ []) (first : 0 < base.scopes.length) :
    Since base around.tail (table.step .leave) := by
  obtain ⟨inner, chained, known⟩ := since.entered
  cases known with
  | nil => exact absurd rfl filled
  | @cons number region inner around own known =>
    have current : table.current = number := (List.cons.inj chained).1
    have positive : 0 < table.current := by omega
    obtain ⟨below, succ⟩ := Nat.exists_eq_succ_of_ne_zero positive.ne'
    have inside := since.formed.current
    rw [succ] at inside
    obtain ⟨upper, -, -, -, -, whole⟩ := since.formed.scopes.chain_succ inside
    rw [← Nat.succ_eq_add_one, ← succ] at whole
    have next : (table.step .leave).current = upper := by
      rw [step, whole, Scopes.chain]
      rfl
    refine ⟨wellFormed_step since.formed _, since.kept, inner, ?_, known⟩
    rw [next]
    exact (List.cons.inj (whole.symm.trans chained)).2

theorem target_of_isConfined {hoisted : Bool}
    (within : (if hoisted then hoistsWithin around else !around.isEmpty) = true) :
    base.scopes.length
      ≤ if hoisted then table.scopes.hoistTarget table.current else table.current := by
  obtain ⟨inner, chained, known⟩ := since.entered
  cases hoisted with
  | false =>
    cases known with
    | nil => cases within
    | cons own known =>
      have current : table.current = _ := (List.cons.inj chained).1
      rw [if_neg Bool.false_ne_true, current]
      exact own.1
  | true =>
    have nearest : ∃ target, (inner.find? fun candidate =>
        ((table.scopes[candidate]?).map fun s => s.kind.hoists).getD true) = some target
          ∧ base.scopes.length ≤ target := by
      clear chained since
      induction known with
      | nil => cases within
      | @cons number region inner around own known ih =>
        obtain ⟨scope, found, kind⟩ := Option.map_eq_some_iff.1 own.2
        rw [List.find?_cons, found, Option.map_some, Option.getD_some, kind]
        cases hoists : region.kind.hoists with
        | true => exact ⟨number, rfl, own.1⟩
        | false => exact ih (by simpa [hoistsWithin, hoists] using within)
    obtain ⟨target, found, later⟩ := nearest
    rw [if_pos rfl, Scopes.hoistTarget, chained, List.find?_append, found]
    exact later

theorem declare {hoisted : Bool} {name : String} {kind : VariableKind}
    {definition : Option Occurrence}
    (within : Event.isConfined around (.declare hoisted name kind definition) = true) :
    Since base around (table.step (.declare hoisted name kind definition)) := by
  obtain ⟨inner, chained, known⟩ := since.entered
  have later := since.target_of_isConfined within
  refine ⟨wellFormed_step since.formed _, fun number scope found => ?_, inner, ?_, known.imp ?_⟩
  · have earlier := (List.getElem?_eq_some_iff.1 found).1
    simp only [step, Scopes.getElem?_declare, since.kept number scope found, Option.map_some]
    rw [if_neg (by omega)]
  · simpa [step] using chained
  · rintro number region ⟨after, same⟩
    refine ⟨after, ?_⟩
    rw [← same]
    exact Scopes.map_kind_declare ..

theorem step {event : Event} (within : event.isConfined around = true)
    (first : 0 < base.scopes.length) : Since base (event.move around) (table.step event) := by
  cases event with
  | enter kind block => exact since.enter kind block
  | leave => exact since.leave (by simpa [Event.isConfined] using within) first
  | declare => exact since.declare within
  | refer | exported => exact ⟨wellFormed_step since.formed _, since.kept, since.entered⟩

theorem foldl_step {events : List Event} (confined : Confined around events)
    (first : 0 < base.scopes.length) :
    Since base (regionsAfter around events) (events.foldl Table.step table) := by
  induction events generalizing table around with
  | nil => exact since
  | cons event rest ih => exact ih (since.step confined.1 first) confined.2

end Since

/-- **To evaluate a node that cannot declare anything leaves all scopes as they are.** -/
theorem kept_of_evaluated (formed : base.WellFormed) {node : Node} (tidy : node.Tidy)
    (closed : node.form.canDeclare = false) (here : Path) :
    ((scopeEvents .evaluate here node).foldl step base).current = base.current
      ∧ ∀ (number : Nat) (scope : LexicalScope), base.scopes[number]? = some scope →
        ((scopeEvents .evaluate here node).foldl step base).scopes[number]? = some scope := by
  have confined : Confined [] (scopeEvents .evaluate here node) :=
    confined_evaluated node tidy closed (.visited .evaluate) rfl false here []
  have since := (since_self formed).foldl_step confined formed.scopes.length_pos
  have settled : regionsAfter [] (scopeEvents .evaluate here node) = [] :=
    regionsAfter_events here [] (.visited .evaluate) false node
  rw [settled] at since
  obtain ⟨inner, chained, known⟩ := since.entered
  cases known
  exact ⟨(List.cons.inj chained).1, since.kept⟩

end Table

end TemplateLint.Scope
