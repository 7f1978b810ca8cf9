import TemplateLint.Proofs.Scope.Regions
import TemplateLint.Proofs.Scope.Visit

/-!
# Scopes are left again

**The events of a node leave every scope that they enter** (`settled`), whatever the node is
and however it is visited. So what follows the events of a part has the same regions around it
as the part.
-/

namespace TemplateLint.Scope

open TemplateLint.Syntax
open TemplateLint.Syntax.Fields (one optional many sparse text texts flag literal treeOf)

/-! ## Single events -/

section Events

variable (around : List Region)

@[simp] theorem regionsAfter_nil : regionsAfter around [] = around := rfl

@[simp] theorem regionsAfter_inScope (kind : ScopeKind) (block : Path) {events : List Event}
    (settled : regionsAfter (⟨kind, block⟩ :: around) events = ⟨kind, block⟩ :: around) :
    regionsAfter around (inScope kind block events) = around := by
  have whole : regionsAfter around (inScope kind block events)
      = (regionsAfter (⟨kind, block⟩ :: around) events).tail :=
    regionsAfter_append (⟨kind, block⟩ :: around) events [.leave]
  rw [whole, settled]
  rfl

theorem regionsAfter_of_forall_move {events : List Event}
    (still : ∀ event ∈ events, event.move around = around) :
    regionsAfter around events = around := by
  induction events with
  | nil => rfl
  | cons event rest ih =>
    obtain ⟨first, others⟩ := List.forall_mem_cons.1 still
    rw [regionsAfter, List.foldl_cons, first]
    exact ih others

@[simp] theorem regionsAfter_inScopeIf (condition : Bool) (kind : ScopeKind) (block : Path)
    {events : List Event} (settled : ∀ around, regionsAfter around events = around) :
    regionsAfter around (inScopeIf condition kind block events) = around := by
  cases condition with
  | true => exact regionsAfter_inScope around kind block (settled _)
  | false => exact settled around

@[simp] theorem regionsAfter_ite (condition : Prop) [Decidable condition] {events : List Event}
    (settled : regionsAfter around events = around) :
    regionsAfter around (if condition then events else []) = around := by
  split
  · exact settled
  · rfl

@[simp] theorem regionsAfter_declare (hoisted : Bool) (name : String) (kind : VariableKind)
    (definition : Option Occurrence) (rest : List Event) :
    regionsAfter around (.declare hoisted name kind definition :: rest)
      = regionsAfter around rest := rfl

@[simp] theorem regionsAfter_nameEvents (here : Path) (kind : VariableKind) (id : Option Ident) :
    regionsAfter around (nameEvents here kind id) = around := by
  cases id <;> rfl

@[simp] theorem regionsAfter_identifier (mode : Mode) (occurrence : Occurrence) :
    regionsAfter around (mode.identifier occurrence) = around := by
  match mode with
  | .evaluate => rfl
  | .assign _ => rfl
  | .declare _ _ true => rfl
  | .declare _ _ false => rfl

@[simp] theorem regionsAfter_map_exported (names : List String) :
    regionsAfter around (names.map .exported) = around :=
  regionsAfter_of_forall_move around (by simp [Event.move])

@[simp] theorem regionsAfter_importEvents (here : Path) (specifiers : List Node) :
    regionsAfter around (importEvents here specifiers) = around := by
  refine regionsAfter_of_forall_move around fun event member => ?_
  obtain ⟨_, _, found⟩ := List.mem_filterMap.1 member
  obtain ⟨_, _, rfl⟩ := Option.map_eq_some_iff.1 found
  rfl

theorem mem_exportEvents {here : Path} {specifiers : List Node} {event : Event} :
    event ∈ exportEvents here specifiers ↔ ∃ index span binding exported,
      specifiers[index]? = some ⟨span, .exportSpecifier binding exported⟩
        ∧ (event = .refer ⟨(here.item .specifiers index).child .binding, binding⟩ .read
          ∨ event = .exported binding.name) := by
  simp only [exportEvents, List.mem_flatMap, Prod.exists, List.mem_zipIdx_iff_getElem?]
  constructor
  · rintro ⟨⟨span, form⟩, index, listed, met⟩
    cases form with
    | exportSpecifier binding exported =>
      exact ⟨index, span, binding, exported, listed, by simpa using met⟩
    | _ => cases met
  · rintro ⟨index, span, binding, exported, listed, met⟩
    exact ⟨_, index, listed, by simpa using met⟩

@[simp] theorem regionsAfter_exportEvents (here : Path) (specifiers : List Node) :
    regionsAfter around (exportEvents here specifiers) = around := by
  refine regionsAfter_of_forall_move around fun event member => ?_
  obtain ⟨_, _, _, _, _, rfl | rfl⟩ := mem_exportEvents.1 member <;> rfl

end Events

/-! ## Parts -/

/-- The events of a node leave every scope that they enter, however it is met. -/
def Settled (node : Node) : Prop :=
  ∀ visit isBody here around, regionsAfter around (Visit.events visit isBody here node) = around

/-- The events of every part end in the regions in which they start. -/
def PartsSettled (fields : Fields) : Prop := fields.All fun _ tree => Settled tree.node

theorem partsSettled_append (first second : Fields) :
    PartsSettled (first ++ second) ↔ PartsSettled first ∧ PartsSettled second :=
  Fields.all_append ..

theorem regionsAfter_partEvents_of {fields : Fields} (settled : PartsSettled fields) (mode : Mode)
    (form : Form) (here : Path) (around : List Region) :
    regionsAfter around (partEvents mode form here fields) = around := by
  obtain ⟨layout, children⟩ := fields
  rw [partEvents]
  induction children with
  | nil => rfl
  | cons child rest ih =>
    obtain ⟨first, others⟩ := List.forall_mem_cons.1 settled
    rw [List.flatMap_cons, regionsAfter_append, first, ih others]

theorem regionsAfter_arrangement (mode : Mode) (isBody : Bool) (here : Path) (span : Span)
    (form : Form) (settled : PartsSettled form.fields) (around : List Region) :
    regionsAfter around (arrangement mode isBody here span form (partEvents mode form here))
      = around := by
  have parts : ∀ fields, PartsSettled fields →
      ∀ around, regionsAfter around (partEvents mode form here fields) = around :=
    fun fields settled => regionsAfter_partEvents_of settled mode form here
  cases form with
  | exportNamed declaration specifiers source =>
    cases declaration <;> cases source <;> simp [arrangement, parts, settled]
  | classDefinition | switchStatement | forInStatement | forOfStatement =>
    simp only [Form.fields, partsSettled_append] at settled
    simp [arrangement, parts, settled, partsSettled_append]
  | function =>
    refine regionsAfter_inScopeIf around _ _ _ fun around => ?_
    simp [parts, settled]
  | _ => simp [arrangement, parts, settled]

/-- **The events of a node leave every scope that they enter.** -/
theorem settled (node : Node) : Settled node := by
  have views := Tree.view_induction (motive := fun tree => Settled tree.node)
    fun span form parts => ?_
  · simpa using views node.tree node.isView_tree
  rw [Node.node_tree]
  intro visit isBody here around
  cases visit with
  | skipped | exported => rfl
  | visited mode =>
    rw [events_visited_eq]
    split
    · rfl
    · rw [Node.tree] at parts
      exact regionsAfter_arrangement mode isBody here span form parts around

section Unconditional

variable (mode : Mode) (here : Path) (around : List Region)

@[simp] theorem regionsAfter_events (visit : Visit) (isBody : Bool) (node : Node) :
    regionsAfter around (visit.events isBody here node) = around :=
  settled node visit isBody here around

@[simp] theorem regionsAfter_partEvents (form : Form) (fields : Fields) :
    regionsAfter around (partEvents mode form here fields) = around :=
  regionsAfter_partEvents_of (fun _ _ => settled _) mode form here around

end Unconditional

end TemplateLint.Scope
