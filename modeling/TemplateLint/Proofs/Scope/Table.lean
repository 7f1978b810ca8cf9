import TemplateLint.Scope.Table

/-!
# Well-formed tables

From every scope of a table, the scopes around it lead outwards one by one to the global scope, no
scope holds a name twice, and every reference belongs to a scope of the table. This is one invariant
(`Table.WellFormed`), which every event keeps (`Table.wellFormed_step`).
-/

namespace TemplateLint.Scope

/-! ## Declarations -/

/-- The scope has a variable of the name. -/
def Declares (scopes : Scopes) (scope : Nat) (name : String) : Prop :=
  ∃ s, scopes[scope]? = some s ∧ name ∈ s.locals.map Variable.name

theorem Scopes.isSome_find?_iff (scopes : Scopes) (scope : Nat) (name : String) :
    (scopes.find? scope name).isSome = true ↔ Declares scopes scope name := by
  cases found : scopes[scope]? with
  | none => simp [Scopes.find?, Declares, found]
  | some s => simp [Scopes.find?, LexicalScope.find?, Declares, found]

theorem mem_names_declareVariable (name : String) (kind : VariableKind)
    (definition : Option Occurrence) (known : List Variable) (other : String) :
    other ∈ (declareVariable name kind definition known).map Variable.name
      ↔ other = name ∨ other ∈ known.map Variable.name := by
  induction known with
  | nil => simp [declareVariable]
  | cons first rest ih =>
    by_cases same : first.name = name
    · simp [declareVariable, same]
    · simp only [declareVariable, beq_eq_false_iff_ne.2 same, List.map_cons, List.mem_cons, ih,
        Bool.false_eq_true, if_false]
      exact ⟨or_left_comm.1, or_left_comm.1⟩

theorem nodup_names_declareVariable (name : String) (kind : VariableKind)
    (definition : Option Occurrence) {known : List Variable}
    (distinct : (known.map Variable.name).Nodup) :
    ((declareVariable name kind definition known).map Variable.name).Nodup := by
  induction known with
  | nil => simp [declareVariable]
  | cons first rest ih =>
    obtain ⟨fresh, distinct⟩ := List.nodup_cons.1 distinct
    by_cases same : first.name = name
    · simp only [declareVariable, same, beq_self_eq_true, if_true, List.map_cons]
      exact List.nodup_cons.2 ⟨same ▸ fresh, distinct⟩
    · simp only [declareVariable, beq_eq_false_iff_ne.2 same, List.map_cons, Bool.false_eq_true,
        if_false]
      refine List.nodup_cons.2 ⟨fun member => ?_, ih distinct⟩
      rcases (mem_names_declareVariable name kind definition rest first.name).1 member with
        known | known
      · exact same known
      · exact fresh known

namespace Scopes

section Declarations

variable (scopes : Scopes) (target : Nat) (name : String) (kind : VariableKind)
  (definition : Option Occurrence)

@[simp]
theorem length_declare :
    (scopes.declare target name kind definition).length = scopes.length :=
  List.length_modify ..

theorem getElem?_declare (scope : Nat) :
    (scopes.declare target name kind definition)[scope]?
      = (scopes[scope]?).map fun s =>
        if target = scope then { s with locals := declareVariable name kind definition s.locals }
        else s := by
  rw [declare, List.getElem?_modify]
  by_cases same : target = scope <;> simp [same]

theorem declares_declare_iff {scopes : Scopes} {target : Nat} (known : target < scopes.length)
    (scope : Nat) (other : String) :
    Declares (scopes.declare target name kind definition) scope other
      ↔ Declares scopes scope other ∨ scope = target ∧ other = name := by
  unfold Declares
  rw [getElem?_declare]
  by_cases same : target = scope
  · subst same
    obtain ⟨s, found⟩ : ∃ s, scopes[target]? = some s := ⟨_, List.getElem?_eq_getElem known⟩
    simp only [found, Option.map_some, if_true, Option.some.injEq, exists_eq_left', true_and,
      mem_names_declareVariable]
    exact or_comm
  · cases found : scopes[scope]? <;> simp [same, Ne.symm same]

@[simp]
theorem chain_declare (scope : Nat) :
    (scopes.declare target name kind definition).chain scope = scopes.chain scope := by
  simp only [chain, getElem?_declare]
  cases scopes[scope]? with
  | none => rfl
  | some s => by_cases same : target = scope <;> simp [same]

end Declarations

theorem chain_append {scopes : Scopes} {scope : Nat} (known : scope < scopes.length)
    (more : Scopes) : Scopes.chain (scopes ++ more) scope = scopes.chain scope := by
  simp only [chain, List.getElem?_append_left known]

/-! ## Scopes around a scope -/

/-- Scopes are well formed: the first has none around it, the scopes around any other are
those of an earlier one, and none holds a name twice. -/
structure WellFormed (scopes : Scopes) : Prop where
  outermost : ∃ s, scopes[0]? = some s ∧ s.enclosing = []
  enclosed : ∀ scope s, scopes[scope + 1]? = some s →
    ∃ upper ≤ scope, s.enclosing = scopes.chain upper
  distinct : ∀ s ∈ scopes, (s.locals.map Variable.name).Nodup

namespace WellFormed

variable {scopes : Scopes} (formed : scopes.WellFormed)

include formed

theorem length_pos : 0 < scopes.length := by
  obtain ⟨s, first, _⟩ := formed.outermost
  exact (List.getElem?_eq_some_iff.1 first).1

theorem chain_zero : scopes.chain 0 = [0] := by
  obtain ⟨s, first, alone⟩ := formed.outermost
  simp [chain, first, alone]

theorem chain_succ {scope : Nat} (known : scope + 1 < scopes.length) :
    ∃ upper ≤ scope, ∃ s, scopes[scope + 1]? = some s ∧ s.enclosing = scopes.chain upper
      ∧ scopes.chain (scope + 1) = (scope + 1) :: scopes.chain upper := by
  have found : scopes[scope + 1]? = some (scopes[scope + 1]) := List.getElem?_eq_getElem known
  obtain ⟨upper, earlier, around⟩ := formed.enclosed scope _ found
  exact ⟨upper, earlier, _, found, around, by simp [chain, found, around]⟩

/-- Induction from the outermost scope inwards. -/
@[elab_as_elim]
theorem chain_induction {motive : Nat → Prop} (outermost : motive 0)
    (inner : ∀ below upper, below + 1 < scopes.length → upper ≤ below →
      scopes.chain (below + 1) = (below + 1) :: scopes.chain upper → motive upper →
        motive (below + 1))
    {scope : Nat} (known : scope < scopes.length) : motive scope := by
  induction scope using Nat.strongRecOn with
  | ind scope ih =>
    cases scope with
    | zero => exact outermost
    | succ below =>
      obtain ⟨upper, earlier, _, _, _, whole⟩ := formed.chain_succ known
      exact inner below upper known earlier whole (ih upper (by omega) (by omega))

theorem chain_ends {scope : Nat} (known : scope < scopes.length) :
    ∃ inner, scopes.chain scope = inner ++ [0] ∧ 0 ∉ inner
      ∧ ∀ other ∈ inner, other < scopes.length := by
  refine formed.chain_induction ?_ (fun below upper known _ whole ih => ?_) known
  · exact ⟨[], formed.chain_zero, by simp, by simp⟩
  · obtain ⟨inner, ends, notInner, bounded⟩ := ih
    refine ⟨(below + 1) :: inner, by rw [whole, ends, List.cons_append], ?_, ?_⟩
    · intro member
      rcases List.mem_cons.1 member with zero | member
      · omega
      · exact notInner member
    · intro other member
      rcases List.mem_cons.1 member with rfl | member
      · exact known
      · exact bounded other member

theorem lt_of_mem_chain {scope other : Nat} (known : scope < scopes.length)
    (member : other ∈ scopes.chain scope) : other < scopes.length := by
  obtain ⟨inner, ends, _, bounded⟩ := formed.chain_ends known
  rw [ends, List.mem_append, List.mem_singleton] at member
  rcases member with member | rfl
  · exact bounded other member
  · exact formed.length_pos

theorem hoistTarget_lt {current : Nat} (known : current < scopes.length) :
    scopes.hoistTarget current < scopes.length := by
  rw [hoistTarget]
  cases found : (scopes.chain current).find? fun candidate =>
      ((scopes[candidate]?).map fun s => s.kind.hoists).getD true with
  | none => exact formed.length_pos
  | some target => exact formed.lt_of_mem_chain known (List.mem_of_find?_eq_some found)

theorem declare (target : Nat) (name : String) (kind : VariableKind)
    (definition : Option Occurrence) :
    (scopes.declare target name kind definition).WellFormed where
  outermost := by
    obtain ⟨s, first, alone⟩ := formed.outermost
    rw [getElem?_declare, first, Option.map_some]
    exact ⟨_, rfl, by split <;> exact alone⟩
  enclosed := by
    intro scope s found
    rw [getElem?_declare] at found
    obtain ⟨before, foundBefore, rfl⟩ := Option.map_eq_some_iff.1 found
    obtain ⟨upper, earlier, around⟩ := formed.enclosed scope before foundBefore
    refine ⟨upper, earlier, ?_⟩
    rw [chain_declare, ← around]
    split <;> rfl
  distinct := by
    intro s member
    obtain ⟨scope, found⟩ := List.mem_iff_getElem?.1 member
    rw [getElem?_declare] at found
    obtain ⟨before, foundBefore, rfl⟩ := Option.map_eq_some_iff.1 found
    have distinct := formed.distinct before (List.mem_of_getElem? foundBefore)
    split
    · exact nodup_names_declareVariable name kind definition distinct
    · exact distinct

theorem enter {current : Nat} (known : current < scopes.length) (kind : ScopeKind)
    (block : Syntax.Path) :
    Scopes.WellFormed (scopes ++ [⟨kind, block, scopes.chain current, []⟩]) where
  outermost := by
    obtain ⟨s, first, alone⟩ := formed.outermost
    exact ⟨s, by rw [List.getElem?_append_left formed.length_pos, first], alone⟩
  enclosed := by
    intro scope s found
    by_cases old : scope + 1 < scopes.length
    · rw [List.getElem?_append_left old] at found
      obtain ⟨upper, earlier, around⟩ := formed.enclosed scope s found
      exact ⟨upper, earlier, by rw [around, chain_append (by omega)]⟩
    · have last : scope + 1 = scopes.length := by
        have := (List.getElem?_eq_some_iff.1 found).1
        rw [List.length_append, List.length_singleton] at this
        omega
      rw [last, List.getElem?_concat_length, Option.some.injEq] at found
      subst found
      exact ⟨current, by omega, (chain_append known _).symm⟩
  distinct := by
    intro s member
    rcases List.mem_append.1 member with old | new
    · exact formed.distinct s old
    · rw [List.mem_singleton.1 new]
      exact List.nodup_nil

end WellFormed

/-- The scopes from one outwards: each is followed by the one directly around it, up to one
that has none around it. -/
inductive Outward (scopes : Scopes) : Nat → List Nat → Prop where
  | last {scope : Nat} {s : LexicalScope} (found : scopes[scope]? = some s)
      (alone : s.upper? = none) : Outward scopes scope [scope]
  | next {scope upper : Nat} {s : LexicalScope} {rest : List Nat}
      (found : scopes[scope]? = some s) (around : s.upper? = some upper)
      (further : Outward scopes upper rest) : Outward scopes scope (scope :: rest)

theorem WellFormed.outward_chain {scopes : Scopes} (formed : scopes.WellFormed) {scope : Nat}
    (known : scope < scopes.length) : Outward scopes scope (scopes.chain scope) := by
  induction scope using Nat.strongRecOn with
  | ind scope ih =>
    cases scope with
    | zero =>
      obtain ⟨s, first, alone⟩ := formed.outermost
      rw [formed.chain_zero]
      exact .last first (by rw [LexicalScope.upper?, alone]; rfl)
    | succ below =>
      obtain ⟨upper, earlier, s, found, around, whole⟩ := formed.chain_succ known
      rw [whole]
      refine .next found ?_ (ih upper (by omega) (by omega))
      rw [LexicalScope.upper?, around]
      rfl

end Scopes

/-! ## Tables of events -/

/-- A table is well formed: its scopes are, and the current scope and the scopes of all
references and exports are among them. -/
structure Table.WellFormed (table : Table) : Prop where
  scopes : table.scopes.WellFormed
  current : table.current < table.scopes.length
  references : ∀ reference ∈ table.references, reference.scope < table.scopes.length
  exports : ∀ entry ∈ table.exports, entry.1 < table.scopes.length

namespace Table

theorem wellFormed_empty : empty.WellFormed where
  scopes := {
    outermost := ⟨_, rfl, rfl⟩
    enclosed := by
      intro scope s found
      simp [empty] at found
    distinct := by
      intro s member
      rw [List.mem_singleton.1 member]
      exact List.nodup_nil }
  current := Nat.zero_lt_one
  references := nofun
  exports := nofun

/-- Every event keeps the table well-formed. -/
theorem wellFormed_step {table : Table} (formed : table.WellFormed) (event : Event) :
    (table.step event).WellFormed := by
  cases event with
  | enter kind block =>
    have longer : ∀ {scope}, scope < table.scopes.length →
        scope < (table.step (.enter kind block)).scopes.length := by
      simp only [step, List.length_append, List.length_singleton]
      omega
    refine ⟨formed.scopes.enter formed.current kind block, by simp [step], ?_, ?_⟩
    · exact fun reference member => longer (formed.references reference member)
    · exact fun entry member => longer (formed.exports entry member)
  | leave =>
    refine ⟨formed.scopes, ?_, formed.references, formed.exports⟩
    simp only [step]
    cases around : (table.scopes.chain table.current)[1]? with
    | none => exact formed.scopes.length_pos
    | some upper =>
      exact formed.scopes.lt_of_mem_chain formed.current (List.mem_of_getElem? around)
  | declare hoisted name kind definition =>
    refine ⟨formed.scopes.declare _ name kind definition, ?_, fun reference member => ?_,
      fun entry member => ?_⟩
    · simpa [step] using formed.current
    · simpa [step] using formed.references reference member
    · simpa [step] using formed.exports entry member
  | refer occurrence access =>
    refine ⟨formed.scopes, formed.current, fun reference member => ?_, formed.exports⟩
    rcases List.mem_append.1 member with old | new
    · exact formed.references reference old
    · rw [List.mem_singleton.1 new]
      exact formed.current
  | exported name =>
    refine ⟨formed.scopes, formed.current, formed.references, fun entry member => ?_⟩
    rcases List.mem_append.1 member with old | new
    · exact formed.exports entry old
    · rw [List.mem_singleton.1 new]
      exact formed.current

theorem wellFormed_foldl_step {table : Table} (formed : table.WellFormed) (events : List Event) :
    (events.foldl step table).WellFormed := by
  induction events generalizing table with
  | nil => exact formed
  | cons event rest ih => exact ih (wellFormed_step formed event)

theorem wellFormed_ofEvents (events : List Event) : (ofEvents events).WellFormed :=
  wellFormed_foldl_step wellFormed_empty events

end Table

end TemplateLint.Scope
