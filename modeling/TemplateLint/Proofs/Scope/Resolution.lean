import Mathlib.Data.List.Find
import Mathlib.Data.List.Nodup
import TemplateLint.Proofs.Scope.Table
import TemplateLint.Scope.Analysis

/-!
# References belong to variables

References are resolved one after another, and a known global is declared while this goes
on. It makes no difference, because a declaration in the global scope is seen only by references
that would belong to it anyway (`Scopes.lookup?_declare_global`, `resolveInTurn_resolutions`).

Where a reference belongs is said by `BelongsTo`, without any of the functions that find
it. The references of a program are divided by it (`analyze_partition`).
-/

namespace TemplateLint.Scope

open TemplateLint.Syntax

/-- Where a reference belongs, given the declarations of a program and the known globals:
to the nearest scope outwards that holds its name, or to the global scope if none does and
the name is known, or nowhere. -/
inductive BelongsTo (scopes : Scopes) (globals : List String) (reference : Reference) :
    Option VariableId → Prop where
  | nearest {inner outer : List Nat} {scope : Nat}
      (path : scopes.Outward reference.scope (inner ++ scope :: outer))
      (declares : Declares scopes scope reference.name)
      (nearer : ∀ other ∈ inner, ¬ Declares scopes other reference.name) :
      BelongsTo scopes globals reference (some ⟨scope, reference.name⟩)
  | known {path : List Nat} (outward : scopes.Outward reference.scope path)
      (undeclared : ∀ other ∈ path, ¬ Declares scopes other reference.name)
      (known : reference.name ∈ globals) :
      BelongsTo scopes globals reference (some ⟨0, reference.name⟩)
  | free {path : List Nat} (outward : scopes.Outward reference.scope path)
      (undeclared : ∀ other ∈ path, ¬ Declares scopes other reference.name)
      (unknown : reference.name ∉ globals) : BelongsTo scopes globals reference none

/-! ## Declarations of globals -/

namespace Scopes

/-- A global that is declared is found wherever its name was not found before. -/
theorem lookup?_declare_global {scopes : Scopes} (formed : scopes.WellFormed) {scope : Nat}
    (inTable : scope < scopes.length) (name : String) (kind : VariableKind)
    (definition : Option Occurrence) (other : String) :
    (scopes.declare 0 name kind definition).lookup? scope other
      = (scopes.lookup? scope other).or (if other = name then some 0 else none) := by
  obtain ⟨inner, ends, notInner, _⟩ := formed.chain_ends inTable
  have inside : ∀ candidate ∈ inner,
      ((scopes.declare 0 name kind definition).find? candidate other).isSome
        = (scopes.find? candidate other).isSome := by
    intro candidate member
    have notGlobal : candidate ≠ 0 := fun zero => notInner (zero ▸ member)
    rw [Bool.eq_iff_iff, isSome_find?_iff, isSome_find?_iff,
      declares_declare_iff _ _ _ formed.length_pos]
    simp [notGlobal]
  have global : ((scopes.declare 0 name kind definition).find? 0 other).isSome
      = ((scopes.find? 0 other).isSome || decide (other = name)) := by
    rw [Bool.eq_iff_iff, Bool.or_eq_true, isSome_find?_iff, isSome_find?_iff,
      declares_declare_iff _ _ _ formed.length_pos]
    simp
  simp only [lookup?, chain_declare, ends, List.find?_append, List.find?_singleton, global]
  rw [List.find?_congr inside]
  cases inner.find? fun candidate => (scopes.find? candidate other).isSome with
  | some _ => rfl
  | none => cases (scopes.find? 0 other).isSome <;> simp

end Scopes

/-! ## References in turn -/

section InTurn

variable (globals : List String)

/-- The scope of the variable that a reference refers to: the nearest one that declares its name,
else the global one for a known global. -/
def home? (scopes : Scopes) (reference : Reference) : Option Nat :=
  (scopes.lookup? reference.scope reference.name).or
    (if reference.name ∈ globals then some 0 else none)

theorem resolveNext_answer (scopes : Scopes) (reference : Reference) :
    (resolveNext globals scopes reference).2 = home? globals scopes reference := by
  unfold resolveNext home?
  cases scopes.lookup? reference.scope reference.name with
  | some scope => rfl
  | none => by_cases known : reference.name ∈ globals <;> simp [known]

theorem resolveNext_scopes (scopes : Scopes) (reference : Reference) :
    (resolveNext globals scopes reference).1 = scopes
      ∨ reference.name ∈ globals
        ∧ (resolveNext globals scopes reference).1
          = scopes.declare 0 reference.name .global none := by
  unfold resolveNext
  cases scopes.lookup? reference.scope reference.name with
  | some scope => exact .inl rfl
  | none =>
    by_cases known : reference.name ∈ globals
    · exact .inr ⟨known, by simp [known]⟩
    · exact .inl (by simp [known])

/-- What declaring a global keeps, resolving references keeps. -/
@[elab_as_elim]
theorem resolveInTurn_keeps {motive : Scopes → Prop}
    (declares : ∀ scopes name, motive scopes → motive (scopes.declare 0 name .global none))
    {scopes : Scopes} (start : motive scopes) (references : List Reference) :
    motive (resolveInTurn globals scopes references).1 := by
  induction references generalizing scopes with
  | nil => exact start
  | cons reference rest ih =>
    have next : motive (resolveNext globals scopes reference).1 := by
      rcases resolveNext_scopes globals scopes reference with same | ⟨_, declared⟩
      · rwa [same]
      · rw [declared]
        exact declares scopes reference.name start
    exact ih next

variable {scopes : Scopes} (formed : scopes.WellFormed)

include formed

theorem wellFormed_resolveNext (reference : Reference) :
    (resolveNext globals scopes reference).1.WellFormed
      ∧ (resolveNext globals scopes reference).1.length = scopes.length := by
  rcases resolveNext_scopes globals scopes reference with same | ⟨_, declared⟩
  · rw [same]
    exact ⟨formed, rfl⟩
  · rw [declared]
    exact ⟨formed.declare .., Scopes.length_declare ..⟩

theorem wellFormed_resolveInTurn (references : List Reference) :
    (resolveInTurn globals scopes references).1.WellFormed :=
  resolveInTurn_keeps globals (fun _ _ kept => kept.declare ..) formed references

/-- What one step does to look-ups: nothing, or a known global is found where nothing was. -/
theorem lookup?_resolveNext (reference : Reference) {scope : Nat}
    (inTable : scope < scopes.length) (name : String) :
    (resolveNext globals scopes reference).1.lookup? scope name = scopes.lookup? scope name
      ∨ name ∈ globals ∧ scopes.lookup? scope name = none
        ∧ (resolveNext globals scopes reference).1.lookup? scope name = some 0 := by
  rcases resolveNext_scopes globals scopes reference with same | ⟨known, declared⟩
  · exact .inl (by rw [same])
  · rw [declared, Scopes.lookup?_declare_global formed inTable]
    by_cases sameName : name = reference.name
    · subst sameName
      cases scopes.lookup? scope reference.name with
      | some found => exact .inl rfl
      | none => exact .inr ⟨known, rfl, by simp⟩
    · exact .inl (by simp [sameName])

theorem home?_resolveNext (reference other : Reference) (inTable : other.scope < scopes.length) :
    home? globals (resolveNext globals scopes reference).1 other = home? globals scopes other := by
  unfold home?
  rcases lookup?_resolveNext globals formed reference inTable other.name with
    same | ⟨known, none, found⟩
  · rw [same]
  · rw [none, found, if_pos known]
    rfl

/-- **Every reference is resolved as by the scopes before the first one was.** -/
theorem resolveInTurn_resolutions {references : List Reference}
    (inTable : ∀ reference ∈ references, reference.scope < scopes.length) :
    (resolveInTurn globals scopes references).2
      = references.map fun reference => ⟨reference, home? globals scopes reference⟩ := by
  induction references generalizing scopes with
  | nil => rfl
  | cons first rest ih =>
    obtain ⟨formedNext, sameLength⟩ := wellFormed_resolveNext globals formed first
    have later := ih formedNext fun reference member =>
      sameLength ▸ inTable reference (.tail _ member)
    simp only [resolveInTurn, List.map_cons, resolveNext_answer, later]
    refine congrArg _ (List.map_congr_left fun reference member => ?_)
    rw [home?_resolveNext globals formed first reference (inTable reference (.tail _ member))]

theorem lookup?_resolveInTurn (references : List Reference) {scope : Nat}
    (inTable : scope < scopes.length) (name : String) :
    (resolveInTurn globals scopes references).1.lookup? scope name = scopes.lookup? scope name
      ∨ name ∈ globals ∧ scopes.lookup? scope name = none
        ∧ (resolveInTurn globals scopes references).1.lookup? scope name = some 0 := by
  induction references generalizing scopes with
  | nil => exact .inl rfl
  | cons first rest ih =>
    obtain ⟨formedNext, sameLength⟩ := wellFormed_resolveNext globals formed first
    have step := lookup?_resolveNext globals formed first inTable name
    rcases ih formedNext (sameLength ▸ inTable) with same | ⟨known, none, found⟩
    · rw [resolveInTurn, same]
      exact step
    · rw [resolveInTurn]
      rcases step with stepSame | ⟨_, _, stepFound⟩
      · exact .inr ⟨known, stepSame ▸ none, found⟩
      · rw [stepFound] at none
        cases none

theorem lookup?_resolveNext_self (reference : Reference)
    (inTable : reference.scope < scopes.length) :
    (resolveNext globals scopes reference).1.lookup? reference.scope reference.name
      = home? globals scopes reference := by
  unfold resolveNext home?
  cases found : scopes.lookup? reference.scope reference.name with
  | some scope => exact found
  | none =>
    by_cases known : reference.name ∈ globals
    · simp [known, Scopes.lookup?_declare_global formed inTable, found]
    · simp [known, found]

/-- **The scopes afterwards agree with every answer.** -/
theorem lookup?_resolveInTurn_of_mem {references : List Reference}
    (inTable : ∀ reference ∈ references, reference.scope < scopes.length)
    {reference : Reference} (member : reference ∈ references) :
    (resolveInTurn globals scopes references).1.lookup? reference.scope reference.name
      = home? globals scopes reference := by
  induction references generalizing scopes with
  | nil => cases member
  | cons first rest ih =>
    obtain ⟨formedNext, sameLength⟩ := wellFormed_resolveNext globals formed first
    have here : reference.scope < scopes.length := inTable reference member
    rw [resolveInTurn]
    rcases List.mem_cons.1 member with rfl | later
    · have own := lookup?_resolveNext_self globals formed reference here
      rcases lookup?_resolveInTurn globals formedNext rest (sameLength ▸ here) reference.name with
        same | ⟨known, none, _⟩
      · exact same.trans own
      · -- A known name would have been declared by this very step.
        rw [own, home?, if_pos known] at none
        simp at none
    · rw [ih formedNext (fun other member => sameLength ▸ inTable other (.tail _ member)) later]
      exact home?_resolveNext globals formed first reference here

theorem belongsTo_home? {reference : Reference} (inTable : reference.scope < scopes.length) :
    BelongsTo scopes globals reference
      ((home? globals scopes reference).map (⟨·, reference.name⟩)) := by
  have outward := formed.outward_chain inTable
  unfold home?
  cases found : scopes.lookup? reference.scope reference.name with
  | some scope =>
    obtain ⟨declares, inner, outer, path, nearer⟩ := List.find?_eq_some_iff_append.1 found
    rw [path] at outward
    refine .nearest outward ((Scopes.isSome_find?_iff ..).1 declares) fun other member => ?_
    rw [← Scopes.isSome_find?_iff]
    simpa using nearer other member
  | none =>
    have undeclared : ∀ other ∈ scopes.chain reference.scope,
        ¬ Declares scopes other reference.name := fun other member => by
      rw [← Scopes.isSome_find?_iff]
      exact List.find?_eq_none.1 found other member
    by_cases known : reference.name ∈ globals
    · simp only [known, if_true, Option.none_or, Option.map_some]
      exact .known outward undeclared known
    · simp only [known, if_false, Option.none_or, Option.map_none]
      exact .free outward undeclared known

end InTurn

/-! ## Variables -/

namespace Analysis

theorem mem_variables_iff (analysis : Analysis) (id : VariableId) :
    id ∈ analysis.allVariables.map Prod.fst ↔ Declares analysis.scopes id.scope id.name := by
  simp only [allVariables, List.map_flatMap, List.map_map, List.mem_flatMap, Prod.exists,
    List.mem_zipIdx_iff_getElem?, Declares, List.mem_map, Function.comp_apply]
  constructor
  · rintro ⟨s, scope, found, binding, member, rfl⟩
    exact ⟨s, found, binding, member, rfl⟩
  · rintro ⟨s, found, binding, member, same⟩
    exact ⟨s, id.scope, found, binding, member, by rw [same]⟩

theorem nodup_variables (analysis : Analysis) (formed : analysis.scopes.WellFormed) :
    (analysis.allVariables.map Prod.fst).Nodup := by
  simp only [allVariables, List.map_flatMap, List.map_map]
  rw [List.nodup_flatMap]
  constructor
  · rintro ⟨s, scope⟩ member
    have distinct := formed.distinct s (List.mem_of_getElem? (List.mem_zipIdx_iff_getElem?.1 member))
    refine List.Nodup.of_map VariableId.name ?_
    rwa [List.map_map]
  · rw [List.pairwise_iff_getElem]
    intro first second inFirst inSecond before id inOne inOther
    simp only [List.getElem_zipIdx, List.mem_map, Function.comp_apply] at inOne inOther
    obtain ⟨one, _, rfl⟩ := inOne
    obtain ⟨other, _, same⟩ := inOther
    have sameScope := congrArg VariableId.scope same
    simp only at sameScope
    omega

end Analysis

theorem perm_of_home (home : Reference → Option VariableId) {ids : List VariableId}
    (distinct : ids.Nodup) {references : List Reference}
    (listed : ∀ reference ∈ references, ∀ id, home reference = some id → id ∈ ids) :
    references.Perm (references.filter (fun reference => home reference = none)
      ++ ids.flatMap fun id => references.filter fun reference => home reference = some id) := by
  induction ids generalizing references with
  | nil =>
    have free : ∀ reference ∈ references, decide (home reference = none) = true := by
      intro reference member
      cases belongs : home reference with
      | none => rfl
      | some id => cases listed reference member id belongs
    rw [List.filter_eq_self.2 free, List.flatMap_nil, List.append_nil]
  | cons id rest ih =>
    obtain ⟨fresh, distinct⟩ := List.nodup_cons.1 distinct
    -- The references of the first variable are taken out; the others are as before.
    let own := references.filter fun reference => home reference = some id
    let others := references.filter fun reference => !decide (home reference = some id)
    have othersListed : ∀ reference ∈ others, ∀ other, home reference = some other →
        other ∈ rest := by
      intro reference member other belongs
      obtain ⟨member, notOwn⟩ := List.mem_filter.1 member
      rcases List.mem_cons.1 (listed reference member other belongs) with rfl | later
      · simp [belongs] at notOwn
      · exact later
    have freeOthers : others.filter (fun reference => home reference = none)
        = references.filter (fun reference => home reference = none) := by
      rw [List.filter_filter]
      refine List.filter_congr fun reference _ => ?_
      cases home reference <;> simp
    have ofOthers : ∀ other ∈ rest,
        others.filter (fun reference => home reference = some other)
          = references.filter (fun reference => home reference = some other) := by
      intro other member
      have differ : other ≠ id := fun same => fresh (same ▸ member)
      rw [List.filter_filter]
      refine List.filter_congr fun reference _ => ?_
      by_cases belongs : home reference = some other <;> simp [belongs, differ]
    have divided := ih distinct othersListed
    rw [freeOthers, List.flatMap_congr ofOthers] at divided
    have split : references.Perm (own ++ others) := (List.filter_append_perm _ references).symm
    exact split.trans ((divided.append_left own).trans (List.perm_append_comm_assoc ..))

/-! ## Programs -/

/-- The declarations and references of a program, before any reference is resolved. -/
def programTable (root : Node) : Table := Table.ofEvents (programEvents root)

/-- The variable of a program that a reference refers to. -/
def homeIn (root : Node) (globals : List String) (reference : Reference) : Option VariableId :=
  (home? globals (programTable root).scopes reference).map (⟨·, reference.name⟩)

section Programs

variable (root : Node) (globals : List String)

theorem resolutions_analyze :
    (analyze root globals).resolutions = (programTable root).references.map fun reference =>
      ⟨reference, home? globals (programTable root).scopes reference⟩ :=
  have formed := Table.wellFormed_ofEvents (programEvents root)
  resolveInTurn_resolutions globals formed.scopes formed.references

theorem free_analyze :
    (analyze root globals).free = ((programTable root).references.filter fun reference =>
      homeIn root globals reference = none).map Reference.occurrence := by
  rw [Analysis.free, resolutions_analyze, List.filterMap_map, ← List.filterMap_eq_map,
    List.filterMap_filter]
  refine List.filterMap_congr fun reference _ => ?_
  cases belongs : home? globals (programTable root).scopes reference <;> simp [belongs, homeIn]

theorem referencesOf_analyze (id : VariableId) :
    (analyze root globals).referencesOf id = (programTable root).references.filter fun reference =>
      homeIn root globals reference = some id := by
  rw [Analysis.referencesOf, resolutions_analyze, List.filterMap_map,
    ← List.filterMap_some (l := List.filter ..), List.filterMap_filter]
  refine List.filterMap_congr fun reference _ => ?_
  obtain ⟨scope, name⟩ := id
  cases belongs : home? globals (programTable root).scopes reference with
  | none => simp [belongs, homeIn]
  | some home => simp [belongs, homeIn]

theorem lookup?_analyze {reference : Reference}
    (member : reference ∈ (programTable root).references) :
    (analyze root globals).lookup? reference.scope reference.name
      = homeIn root globals reference := by
  have formed := Table.wellFormed_ofEvents (programEvents root)
  have agrees := lookup?_resolveInTurn_of_mem globals formed.scopes formed.references member
  exact congrArg (Option.map fun scope => (⟨scope, reference.name⟩ : VariableId)) agrees

theorem mem_variables_of_homeIn {reference : Reference}
    (member : reference ∈ (programTable root).references) {id : VariableId}
    (belongs : homeIn root globals reference = some id) :
    id ∈ (analyze root globals).allVariables.map Prod.fst := by
  rw [← lookup?_analyze root globals member] at belongs
  obtain ⟨scope, found, rfl⟩ := Option.map_eq_some_iff.1 belongs
  rw [Analysis.mem_variables_iff, ← Scopes.isSome_find?_iff]
  exact (List.find?_eq_some_iff_append.1 found).1

/-- **The references of a program are divided among its variables.** Each belongs to the
variable of its name in the nearest scope that declares the name anywhere, or to the global
variable of a known name that no scope declares, or it is free. The free references and the
references of each variable are in the order in which they were met; together they are all
references, each once; and the scopes with the globals that were declared on the way give
every reference the variable it belongs to. -/
theorem analyze_partition :
    ∃ home : Reference → Option VariableId,
      (∀ reference ∈ (programTable root).references,
        BelongsTo (programTable root).scopes globals reference (home reference))
      ∧ (analyze root globals).free
        = ((programTable root).references.filter fun reference => home reference = none).map
          Reference.occurrence
      ∧ (∀ id, (analyze root globals).referencesOf id
        = (programTable root).references.filter fun reference => home reference = some id)
      ∧ ((programTable root).references.map Reference.occurrence).Perm
        ((analyze root globals).free ++ (analyze root globals).allVariables.flatMap fun entry =>
          ((analyze root globals).referencesOf entry.1).map Reference.occurrence)
      ∧ (∀ reference ∈ (programTable root).references,
        (analyze root globals).lookup? reference.scope reference.name = home reference) := by
  have formed := Table.wellFormed_ofEvents (programEvents root)
  have formedAfter := wellFormed_resolveInTurn globals formed.scopes (programTable root).references
  refine ⟨homeIn root globals, ?_, free_analyze root globals, referencesOf_analyze root globals, ?_,
    fun reference => lookup?_analyze root globals⟩
  · intro reference member
    exact belongsTo_home? globals formed.scopes (formed.references reference member)
  · have divided := perm_of_home (homeIn root globals)
      ((analyze root globals).nodup_variables formedAfter)
      fun reference member id => mem_variables_of_homeIn root globals member
    rw [free_analyze]
    simp only [referencesOf_analyze]
    have renamed := divided.map Reference.occurrence
    simpa only [List.map_append, List.map_flatMap, List.flatMap_map] using renamed

end Programs

end TemplateLint.Scope
