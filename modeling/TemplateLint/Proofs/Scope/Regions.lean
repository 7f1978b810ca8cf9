import TemplateLint.Proofs.Scope.Resolution

/-!
# Regions of a program

A scope belongs to a region of the program, which is known by the kind of the scope and the
place of the node that opens it (`Region`). Read with the regions around them, events open
regions and declare names in them (`effects`), and **a table of scopes records the effects of its
events** (`Table.records_ofEvents`). To resolve references adds names to the global scope and
nothing else (`records_resolveInTurn`).
-/

namespace TemplateLint.Scope

open TemplateLint.Syntax

/-- The part of a program that a scope belongs to. -/
structure Region where
  kind : ScopeKind
  block : Path
  deriving DecidableEq, Repr

namespace Region

def global : Region := ⟨.global, []⟩

variable (around : List Region)

def innermost : Region := around.headD global

/-- The innermost region that takes hoisted variables. -/
def hoisting : Region := (around.find? fun region => region.kind.hoists).getD global

/-- The region that a declaration belongs to. -/
def target (hoisted : Bool) : Region := if hoisted then hoisting around else innermost around

end Region

/-! ## Effects -/

/-- What an event does to the table of scopes: it opens one or declares a name in one. -/
inductive Effect where
  | opened (stack : List Region)
  | declared (region : Region) (name : String) (definition : Option Occurrence)
  deriving DecidableEq, Repr

namespace Effect

def opened? : Effect → Option (List Region)
  | .opened stack => some stack
  | .declared .. => none

def declaredIn? (region : Region) : Effect → Option (String × Option Occurrence)
  | .opened _ => none
  | .declared target name definition =>
    if target = region then some (name, definition) else none

end Effect

/-- The declarations in a region, in order. -/
def declarationsIn (region : Region) (done : List Effect) : List (String × Option Occurrence) :=
  done.filterMap (Effect.declaredIn? region)

@[simp] theorem declarationsIn_append (region : Region) (first second : List Effect) :
    declarationsIn region (first ++ second)
      = declarationsIn region first ++ declarationsIn region second :=
  List.filterMap_append

@[simp] theorem declarationsIn_opened (region : Region) (stack : List Region) :
    declarationsIn region [.opened stack] = [] := rfl

@[simp] theorem declarationsIn_declared (region target : Region) (name : String)
    (definition : Option Occurrence) :
    declarationsIn region [.declared target name definition]
      = if target = region then [(name, definition)] else [] := by
  by_cases same : target = region <;> simp [declarationsIn, Effect.declaredIn?, same]

namespace Event

/-- The regions around after an event. -/
def move (around : List Region) : Event → List Region
  | .enter kind block => ⟨kind, block⟩ :: around
  | .leave => around.tail
  | _ => around

/-- The effect of an event inside the given regions. -/
def effect? (around : List Region) : Event → Option Effect
  | .enter kind block => some (.opened (⟨kind, block⟩ :: around))
  | .declare hoisted name _ definition =>
    some (.declared (Region.target around hoisted) name definition)
  | _ => none

end Event

def regionsAfter (around : List Region) (events : List Event) : List Region :=
  events.foldl Event.move around

/-- The effects of events in order. -/
def effects (around : List Region) : List Event → List Effect
  | [] => []
  | event :: rest => (event.effect? around).toList ++ effects (event.move around) rest

@[simp] theorem regionsAfter_append (around : List Region) (first second : List Event) :
    regionsAfter around (first ++ second) = regionsAfter (regionsAfter around first) second :=
  List.foldl_append

@[simp] theorem effects_append (around : List Region) (first second : List Event) :
    effects around (first ++ second)
      = effects around first ++ effects (regionsAfter around first) second := by
  induction first generalizing around with
  | nil => rfl
  | cons event rest ih => simp [effects, ih, regionsAfter]

/-! ## Variables -/

/-- Variables are those of some declarations: they have the names that are declared, and each
has the definitions of its name in turn. -/
structure Holds (known : List Variable) (declarations : List (String × Option Occurrence)) :
    Prop where
  names : ∀ name, name ∈ known.map Variable.name ↔ name ∈ declarations.map Prod.fst
  definitions : ∀ binding ∈ known, binding.definitions
    = declarations.filterMap fun (name, definition) =>
      if name = binding.name then definition else none

theorem holds_nil : Holds [] [] := ⟨by simp, by simp⟩

theorem mem_declareVariable {name : String} {kind : VariableKind}
    {definition : Option Occurrence} {known : List Variable} {binding : Variable}
    (distinct : (known.map Variable.name).Nodup)
    (member : binding ∈ declareVariable name kind definition known) :
    binding ∈ known ∧ binding.name ≠ name
      ∨ (∃ old ∈ known, old.name = name
        ∧ binding = { old with definitions := old.definitions ++ definition.toList })
      ∨ name ∉ known.map Variable.name ∧ binding = ⟨name, kind, definition.toList⟩ := by
  induction known with
  | nil => exact .inr (.inr ⟨by simp, List.mem_singleton.1 member⟩)
  | cons first rest ih =>
    obtain ⟨fresh, distinct⟩ := List.nodup_cons.1 distinct
    by_cases same : first.name = name
    · simp only [declareVariable, same, beq_self_eq_true, if_true, List.mem_cons] at member
      rcases member with rfl | later
      · exact .inr (.inl ⟨first, .head _, same, by simp [same]⟩)
      · refine .inl ⟨.tail _ later, fun other => fresh ?_⟩
        exact List.mem_map.2 ⟨binding, later, other.trans same.symm⟩
    · simp only [declareVariable, beq_eq_false_iff_ne.2 same, Bool.false_eq_true, if_false,
        List.mem_cons] at member
      rcases member with rfl | later
      · exact .inl ⟨.head _, same⟩
      · rcases ih distinct later with ⟨old, other⟩ | ⟨old, listed, named, rfl⟩ | ⟨new, rfl⟩
        · exact .inl ⟨.tail _ old, other⟩
        · exact .inr (.inl ⟨old, .tail _ listed, named, rfl⟩)
        · refine .inr (.inr ⟨?_, rfl⟩)
          rw [List.map_cons, List.mem_cons, not_or]
          exact ⟨Ne.symm same, new⟩

theorem Holds.declare {known : List Variable}
    {declarations : List (String × Option Occurrence)} (held : Holds known declarations)
    (distinct : (known.map Variable.name).Nodup) (name : String) (kind : VariableKind)
    (definition : Option Occurrence) :
    Holds (declareVariable name kind definition known)
      (declarations ++ [(name, definition)]) where
  names := by
    intro other
    rw [mem_names_declareVariable, held.names, List.map_append, List.mem_append, or_comm]
    simp
  definitions := by
    intro binding member
    rw [List.filterMap_append]
    have own : definition.toList
        = [(name, definition)].filterMap fun (other, value) =>
          if other = name then value else none := by
      cases definition <;> simp
    rcases mem_declareVariable distinct member with
      ⟨old, other⟩ | ⟨old, listed, rfl, rfl⟩ | ⟨new, rfl⟩
    · rw [held.definitions binding old]
      simp [Ne.symm other]
    · exact congrArg₂ _ (held.definitions old listed) own
    · have none : (declarations.filterMap fun (other, value) =>
          if other = name then value else none) = [] := by
        refine List.filterMap_eq_nil_iff.2 fun declaration listed => if_neg fun same => new ?_
        rw [held.names, ← same]
        exact List.mem_map_of_mem listed
      rw [none]
      exact own

/-! ## Scopes and regions -/

def LexicalScope.region (scope : LexicalScope) : Region := ⟨scope.kind, scope.block⟩

namespace Scopes

def regionAt (scopes : Scopes) (number : Nat) : Region :=
  ((scopes[number]?).map LexicalScope.region).getD .global

/-- The regions of a scope and of those around it, from the inside out. -/
def stack (scopes : Scopes) (number : Nat) : List Region :=
  (scopes.chain number).map scopes.regionAt

theorem regionAt_of_getElem? {scopes : Scopes} {number : Nat} {scope : LexicalScope}
    (found : scopes[number]? = some scope) : scopes.regionAt number = scope.region := by
  simp [regionAt, found]

section Declarations

variable (scopes : Scopes) (target : Nat) (name : String) (kind : VariableKind)
  (definition : Option Occurrence)

@[simp] theorem regionAt_declare :
    (scopes.declare target name kind definition).regionAt = scopes.regionAt := by
  funext number
  rw [regionAt, getElem?_declare, regionAt, Option.map_map]
  congr 2
  funext scope
  by_cases same : target = number <;> simp [same, LexicalScope.region]

@[simp] theorem stack_declare :
    (scopes.declare target name kind definition).stack = scopes.stack := by
  funext number
  rw [stack, chain_declare, regionAt_declare, stack]

theorem map_region_declare :
    (scopes.declare target name kind definition).map LexicalScope.region
      = scopes.map LexicalScope.region := by
  refine List.ext_getElem? fun number => ?_
  rw [List.getElem?_map, List.getElem?_map, getElem?_declare, Option.map_map]
  congr 1
  funext scope
  by_cases same : target = number <;> simp [same, LexicalScope.region]

end Declarations

section WellFormed

variable {scopes : Scopes} (formed : scopes.WellFormed)

include formed

theorem stack_append {number : Nat} (known : number < scopes.length) (more : Scopes) :
    Scopes.stack (scopes ++ more) number = scopes.stack number := by
  rw [stack, chain_append known, stack]
  refine List.map_congr_left fun other member => ?_
  rw [regionAt, List.getElem?_append_left (formed.lt_of_mem_chain known member), regionAt]

theorem stack_concat {current : Nat} (known : current < scopes.length) (kind : ScopeKind)
    (block : Path) :
    Scopes.stack (scopes ++ [⟨kind, block, scopes.chain current, []⟩]) scopes.length
      = ⟨kind, block⟩ :: scopes.stack current := by
  have new : (scopes ++ [⟨kind, block, scopes.chain current, []⟩])[scopes.length]?
      = some ⟨kind, block, scopes.chain current, []⟩ := List.getElem?_concat_length
  have chain : Scopes.chain (scopes ++ [⟨kind, block, scopes.chain current, []⟩]) scopes.length
      = scopes.length :: scopes.chain current := by
    rw [Scopes.chain, new]
    rfl
  rw [stack, chain, List.map_cons, regionAt_of_getElem? new,
    ← stack_append formed known [⟨kind, block, scopes.chain current, []⟩], stack,
    chain_append known]
  rfl

omit formed in
theorem regionAt_hoistTarget {current : Nat} {around : List Region}
    (inside : scopes.stack current = around ++ [.global]) :
    scopes.regionAt (scopes.hoistTarget current) = Region.hoisting around := by
  have kinds : (fun candidate => ((scopes[candidate]?).map fun s => s.kind.hoists).getD true)
      = fun candidate => (scopes.regionAt candidate).kind.hoists := by
    funext candidate
    cases found : scopes[candidate]? <;> simp [regionAt, found, LexicalScope.region, Region.global,
      ScopeKind.hoists]
  have regions : ((scopes.chain current).find? fun candidate =>
        (scopes.regionAt candidate).kind.hoists).map scopes.regionAt
      = (around.find? fun region => region.kind.hoists).or (some .global) := by
    have outermost : List.find? (fun region => region.kind.hoists) [Region.global]
        = some .global := rfl
    rw [← outermost, ← List.find?_append, ← inside, stack, List.find?_map]
    rfl
  rw [hoistTarget, kinds, Region.hoisting]
  cases found : (scopes.chain current).find? fun candidate =>
      (scopes.regionAt candidate).kind.hoists with
  | none => simp [found] at regions
  | some target =>
    rw [found, Option.map_some] at regions
    rw [Option.getD_some]
    cases nearest : around.find? fun region => region.kind.hoists with
    | none | some region => simpa [nearest] using regions

theorem stack_upper {current : Nat} (known : current < scopes.length) {around : List Region}
    (inside : scopes.stack current = around ++ [.global]) :
    scopes.stack (((scopes.chain current)[1]?).getD 0) = around.tail ++ [.global] := by
  cases current with
  | zero =>
    rw [stack, formed.chain_zero] at inside
    have alone : around = [] := by
      have lengths := congrArg List.length inside
      simp only [List.map_cons, List.map_nil, List.length_append, List.length_cons,
        List.length_nil] at lengths
      exact List.eq_nil_of_length_eq_zero (by omega)
    subst alone
    rw [formed.chain_zero]
    exact (congrArg (List.map scopes.regionAt) formed.chain_zero).trans inside
  | succ below =>
    obtain ⟨upper, _, scope, _, _, whole⟩ := formed.chain_succ known
    have next : ((scopes.chain (below + 1))[1]?).getD 0 = upper := by
      rw [whole, chain]
      rfl
    rw [stack, whole, List.map_cons] at inside
    rw [next, stack]
    cases around with
    | nil => simp [chain] at inside
    | cons first rest => exact (List.cons.inj inside).2

end WellFormed

/-! ## Recorded effects -/

/-- Scopes record some effects: there is a scope for each region that was opened, in turn,
inside the scopes of the regions around it; names are declared in regions of scopes; and if no
two scopes are of one region, every scope holds the declarations in its region. -/
structure Records (scopes : Scopes) (done : List Effect) : Prop where
  formed : scopes.WellFormed
  opened : (List.range scopes.length).map scopes.stack
    = [.global] :: (done.filterMap Effect.opened?).map (· ++ [.global])
  known : ∀ region, declarationsIn region done ≠ [] → region ∈ scopes.map LexicalScope.region
  held : (scopes.map LexicalScope.region).Nodup → ∀ scope ∈ scopes,
    Holds scope.locals (declarationsIn scope.region done)

namespace Records

variable {scopes : Scopes} {done : List Effect} (records : scopes.Records done)

include records

theorem regionAt_zero : scopes.regionAt 0 = .global := by
  have first := congrArg List.head? records.opened
  obtain ⟨others, length⟩ := Nat.exists_eq_succ_of_ne_zero records.formed.length_pos.ne'
  rw [length, List.range_succ_eq_map, List.map_cons, stack, records.formed.chain_zero] at first
  exact (List.cons.inj (Option.some.inj first)).1

theorem declare {target : Nat} (known : target < scopes.length) (name : String)
    (kind : VariableKind) (definition : Option Occurrence) :
    (scopes.declare target name kind definition).Records
      (done ++ [.declared (scopes.regionAt target) name definition]) where
  formed := records.formed.declare target name kind definition
  opened := by
    rw [length_declare, stack_declare, records.opened, List.filterMap_append]
    simp [Effect.opened?]
  known := by
    intro region some
    rw [map_region_declare]
    by_cases same : scopes.regionAt target = region
    · rw [← same, regionAt_of_getElem? (List.getElem?_eq_getElem known)]
      exact List.mem_map_of_mem (List.getElem_mem known)
    · refine records.known region fun none => some ?_
      simp [none, same]
  held := by
    intro distinct scope member
    rw [map_region_declare] at distinct
    obtain ⟨number, found⟩ := List.mem_iff_getElem?.1 member
    rw [getElem?_declare] at found
    obtain ⟨before, foundBefore, rfl⟩ := Option.map_eq_some_iff.1 found
    have held := records.held distinct before (List.mem_of_getElem? foundBefore)
    rw [declarationsIn_append]
    by_cases same : target = number
    · subst same
      have region : scopes.regionAt target = before.region := regionAt_of_getElem? foundBefore
      have names := records.formed.distinct before (List.mem_of_getElem? foundBefore)
      have more := held.declare names name kind definition
      simpa [region, LexicalScope.region] using more
    -- no two scopes have one region, so the other scopes stay as they are
    · have differ : scopes.regionAt target ≠ before.region := by
        intro equal
        have foundTarget := List.getElem?_eq_getElem known
        rw [regionAt_of_getElem? foundTarget] at equal
        refine same ((List.getElem?_inj (by rwa [List.length_map]) distinct).1 ?_)
        rw [List.getElem?_map, List.getElem?_map, foundTarget, foundBefore, Option.map_some,
          Option.map_some, equal]
      simpa [same, differ] using held

theorem enter {current : Nat} (known : current < scopes.length) {around : List Region}
    (inside : scopes.stack current = around ++ [.global]) (kind : ScopeKind) (block : Path) :
    Scopes.Records (scopes ++ [⟨kind, block, scopes.chain current, []⟩])
      (done ++ [.opened (⟨kind, block⟩ :: around)]) where
  formed := records.formed.enter known kind block
  opened := by
    have old : (List.range scopes.length).map
          (Scopes.stack (scopes ++ [⟨kind, block, scopes.chain current, []⟩]))
        = (List.range scopes.length).map scopes.stack :=
      List.map_congr_left fun number member =>
        stack_append records.formed (List.mem_range.1 member) _
    rw [List.length_append, List.length_singleton, List.range_succ, List.map_append, old,
      records.opened, List.map_singleton, stack_concat records.formed known, inside,
      List.filterMap_append]
    simp [Effect.opened?]
  known := by
    intro region some
    rw [List.map_append, List.mem_append]
    exact .inl (records.known region (by simpa using some))
  held := by
    intro distinct scope member
    rw [List.map_append] at distinct
    obtain ⟨before, _, apart⟩ := List.nodup_append.1 distinct
    rw [declarationsIn_append, declarationsIn_opened, List.append_nil]
    rcases List.mem_append.1 member with old | new
    · exact records.held before scope old
    · have fresh : declarationsIn ⟨kind, block⟩ done = [] := by
        by_contra some
        exact apart _ (records.known _ some) _ (List.mem_singleton_self _) rfl
      rw [List.mem_singleton.1 new]
      exact fresh ▸ holds_nil

end Records

end Scopes

/-! ## Tables -/

/-- The table that the given effects lead to, with the current scope inside the given regions. -/
structure Table.Records (table : Table) (around : List Region) (done : List Effect) : Prop where
  formed : table.WellFormed
  inside : table.scopes.stack table.current = around ++ [.global]
  scopes : table.scopes.Records done

namespace Table

theorem records_empty : empty.Records [] [] where
  formed := wellFormed_empty
  inside := rfl
  scopes := {
    formed := wellFormed_empty.scopes
    opened := rfl
    known := by
      intro region some
      exact absurd rfl some
    held := by
      intro _ scope member
      rw [List.mem_singleton.1 member]
      exact holds_nil }

theorem records_step {table : Table} {around : List Region} {done : List Effect}
    (records : table.Records around done) (event : Event) :
    (table.step event).Records (event.move around) (done ++ (event.effect? around).toList) := by
  have formed := wellFormed_step records.formed event
  have known := records.formed.current
  cases event with
  | enter kind block =>
    refine ⟨formed, ?_, records.scopes.enter known records.inside kind block⟩
    exact (Scopes.stack_concat records.scopes.formed known kind block).trans
      (congrArg _ records.inside)
  | leave =>
    refine ⟨formed, Scopes.stack_upper records.scopes.formed known records.inside, ?_⟩
    exact (List.append_nil done).symm ▸ records.scopes
  | declare hoisted name kind definition =>
    refine ⟨formed, ?_, ?_⟩
    · simpa [step, Event.move] using records.inside
    · cases hoisted with
      | true =>
        have target := records.scopes.formed.hoistTarget_lt known
        have declared := records.scopes.declare target name kind definition
        rw [Scopes.regionAt_hoistTarget records.inside] at declared
        exact declared
      | false =>
        have current : table.scopes.regionAt table.current = Region.innermost around := by
          have first := congrArg List.head? records.inside
          cases around <;> exact Option.some.inj first
        have declared := records.scopes.declare known name kind definition
        rw [current] at declared
        exact declared
  | refer | exported => exact ⟨formed, records.inside, (List.append_nil done).symm ▸ records.scopes⟩

theorem records_foldl_step {table : Table} {around : List Region} {done : List Effect}
    (records : table.Records around done) (events : List Event) :
    (events.foldl step table).Records (regionsAfter around events)
      (done ++ effects around events) := by
  induction events generalizing table around done with
  | nil => simpa [effects, regionsAfter] using records
  | cons event rest ih =>
    have later := ih (records_step records event)
    rwa [List.append_assoc] at later

/-- **A table records the effects of its events.** -/
theorem records_ofEvents (events : List Event) :
    (ofEvents events).scopes.Records (effects [] events) :=
  (records_foldl_step records_empty events).scopes

end Table

/-- Resolving references declares nothing but known globals. -/
theorem records_resolveInTurn (globals : List String) {scopes : Scopes} {done : List Effect}
    (records : scopes.Records done) (references : List Reference) :
    ∃ known : List String, (resolveInTurn globals scopes references).1.Records
      (done ++ known.map fun name => .declared .global name none) := by
  refine resolveInTurn_keeps globals (fun later name kept => ?_) ⟨[], by simpa using records⟩
    references
  obtain ⟨known, kept⟩ := kept
  have next := kept.declare kept.formed.length_pos name .global none
  rw [kept.regionAt_zero, List.append_assoc] at next
  exact ⟨known ++ [name], by simpa using next⟩

end TemplateLint.Scope
