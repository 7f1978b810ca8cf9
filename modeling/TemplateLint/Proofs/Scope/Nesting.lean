import TemplateLint.Proofs.Scope.Surroundings

/-!
# Scopes by their regions

The scopes of a program are known by the regions they belong to (`Scopes.Follows`): a scope is
determined by its stack of regions (`Scopes.Follows.stack_inj`), and one scope is inside another
exactly as its stack says (`Scopes.Follows.mem_chain`).
-/

namespace TemplateLint.Scope

open TemplateLint.Syntax

/-! ## Scopes outwards -/

theorem Scopes.lookup?_of_chain {scopes : Scopes} {number upper : Nat}
    (inside : scopes.chain number = number :: scopes.chain upper) (name : String) :
    scopes.lookup? number name
      = if (scopes.find? number name).isSome then some number else scopes.lookup? upper name := by
  rw [lookup?, inside, List.find?_cons, lookup?]
  cases (scopes.find? number name).isSome <;> rfl

namespace Scopes.WellFormed

variable {scopes : Scopes} (formed : scopes.WellFormed) {scope other : Nat}
  (known : scope < scopes.length) (member : other ∈ scopes.chain scope)

include formed known member

theorem le_of_mem_chain : other ≤ scope := by
  revert member
  refine formed.chain_induction (fun member => ?_) (fun below upper _ earlier whole ih => ?_) known
  · rw [formed.chain_zero] at member
    exact Nat.le_of_eq (List.mem_singleton.1 member)
  · rw [whole, List.mem_cons]
    rintro (rfl | outer)
    · exact Nat.le_refl _
    · have := ih outer
      omega

theorem chain_suffix : scopes.chain other <:+ scopes.chain scope := by
  revert member
  refine formed.chain_induction (fun member => ?_) (fun below upper _ _ whole ih => ?_) known
  · rw [formed.chain_zero] at member
    exact List.mem_singleton.1 member ▸ List.suffix_rfl
  · rw [whole, List.mem_cons]
    rintro (rfl | outer)
    · exact whole ▸ List.suffix_rfl
    · exact (ih outer).trans (List.suffix_cons _ _)

theorem lookup?_of_mem_chain {name : String} (declares : Declares scopes other name) :
    ∃ home ∈ scopes.chain scope, scopes.lookup? scope name = some home
      ∧ other ∈ scopes.chain home := by
  have found := (isSome_find?_iff scopes other name).2 declares
  revert member
  refine formed.chain_induction (fun member => ?_) (fun below upper _ _ whole ih member => ?_) known
  · rw [formed.chain_zero] at member
    obtain rfl := List.mem_singleton.1 member
    exact ⟨0, List.mem_cons_self, List.find?_cons_of_pos found, List.mem_cons_self⟩
  · by_cases here : (scopes.find? (below + 1) name).isSome = true
    · exact ⟨below + 1, List.mem_cons_self, List.find?_cons_of_pos here, member⟩
    · have apart : other ≠ below + 1 := fun same => here (same ▸ found)
      rw [whole] at member
      obtain ⟨home, inside, answer, around⟩ := ih ((List.mem_cons.1 member).resolve_left apart)
      refine ⟨home, whole ▸ .tail _ inside, ?_, around⟩
      rw [lookup?_of_chain whole, if_neg here, answer]

end Scopes.WellFormed

/-! ## Regions opened at a place -/

/-- The kinds of the scopes that the node at a place opens, from the inside out. -/
def kindsAt (root : Node) (place : Path) : List ScopeKind :=
  match root.tree.nodeAt? place with
  | none => []
  | some node => scopeKinds (programSetting root place).isBody node.form

theorem kindsAt_eq {root node : Node} {place : Path}
    (found : root.tree.nodeAt? place = some node) :
    kindsAt root place = scopeKinds (programSetting root place).isBody node.form := by
  rw [kindsAt, found]

/-- The regions inside the node at a place, and those around it. -/
def regionsOf (root : Node) (place : Path) (kinds : List ScopeKind) : List Region :=
  kinds.map (⟨·, place⟩) ++ surroundings root place

theorem Station.mem_openings {around opening : List Region} {here : Path}
    {kinds : List ScopeKind} :
    opening ∈ Station.openings around here kinds
      ↔ ∃ inner, inner ≠ [] ∧ inner <:+ kinds ∧ opening = inner.map (⟨·, here⟩) ++ around := by
  induction kinds with
  | nil =>
    refine ⟨fun member => absurd member List.not_mem_nil, ?_⟩
    rintro ⟨inner, some, suffix, _⟩
    exact absurd (List.suffix_nil.1 suffix) some
  | cons kind outer ih =>
    rw [Station.openings, List.mem_append, ih, List.mem_singleton]
    constructor
    · rintro (⟨inner, some, suffix, rfl⟩ | rfl)
      · exact ⟨inner, some, suffix.trans (List.suffix_cons kind outer), rfl⟩
      · exact ⟨kind :: outer, List.cons_ne_nil _ _, List.suffix_rfl, rfl⟩
    · rintro ⟨inner, some, suffix, rfl⟩
      rcases List.suffix_cons_iff.1 suffix with rfl | shorter
      · exact .inr rfl
      · exact .inl ⟨inner, some, shorter, rfl⟩

theorem scopeKindsAround_suffix (isBody : Bool) (form : Form) (field : Field) :
    scopeKindsAround isBody form field <:+ scopeKinds isBody form := by
  unfold scopeKindsAround
  split
  · split
    · exact List.tail_suffix _
    · exact List.suffix_rfl
  · split
    · exact List.suffix_rfl
    · exact List.nil_suffix
  · split
    · exact List.suffix_rfl
    · exact List.nil_suffix
  · exact List.suffix_rfl

/-! ## Scopes of a program -/

namespace Scopes

/-- The scopes are well-formed, and they are those of the program. -/
structure Follows (scopes : Scopes) (root : Node) : Prop where
  formed : scopes.WellFormed
  declared : scopes.DeclaredBy root

theorem Records.follows {scopes : Scopes} {root : Node} (shaped : root.Shaped)
    {known : List String} (records : scopes.Records
      (effects [] (programEvents root) ++ known.map fun name => .declared .global name none)) :
    scopes.Follows root where
  formed := records.formed
  declared := by
    have agree := pick_programEvents shaped
    refine declaredBy_of_records records ?_ fun region => ?_
    · have still : (known.map fun name => Effect.declared .global name none).filterMap
          Effect.opened? = [] := List.filterMap_eq_nil_iff.2 (by simp [Effect.opened?])
      rw [List.filterMap_append, still, List.append_nil, ← opened_programEffects]
      exact opened_perm_of_pick agree
    · rw [declarationsIn_append, declarationsIn_of_pick agree, declarationsIn_programEffects]
      by_cases same : region = .global
      · exact ⟨known, fun other => absurd same other,
          by simp [same, declarationsIn, Effect.declaredIn?, Function.comp_def]⟩
      · exact ⟨[], fun _ => rfl,
          by simp [Ne.symm same, declarationsIn, Effect.declaredIn?, Function.comp_def]⟩

end Scopes

theorem follows_analyze {root : Node} (shaped : root.Shaped) (globals : List String) :
    (analyze root globals).scopes.Follows root := by
  obtain ⟨known, records⟩ := records_resolveInTurn globals
    (Table.records_ofEvents (programEvents root)) (programTable root).references
  exact records.follows shaped

namespace Scopes.Follows

variable {scopes : Scopes} {root : Node} (follows : scopes.Follows root)

include follows

theorem regionAt_inj {number other : Nat} (known : number < scopes.length)
    (knownOther : other < scopes.length)
    (same : scopes.regionAt number = scopes.regionAt other) : number = other := by
  refine (List.getElem?_inj (by rwa [List.length_map]) follows.declared.distinct).1 ?_
  rw [regionAt_of_getElem? (List.getElem?_eq_getElem known),
    regionAt_of_getElem? (List.getElem?_eq_getElem knownOther)] at same
  rw [List.getElem?_map, List.getElem?_map, List.getElem?_eq_getElem known,
    List.getElem?_eq_getElem knownOther, Option.map_some, Option.map_some, same]

/-- A scope is known by the regions around it. -/
theorem stack_inj {number other : Nat} (known : number < scopes.length)
    (knownOther : other < scopes.length) (same : scopes.stack number = scopes.stack other) :
    number = other :=
  follows.regionAt_inj known knownOther (List.cons.inj same).1

theorem exists_stack_iff (stack : List Region) :
    (∃ number < scopes.length, scopes.stack number = stack)
      ↔ stack = [.global] ∨ ∃ place kinds, kinds ≠ [] ∧ kinds <:+ kindsAt root place
        ∧ stack = regionsOf root place kinds ++ [.global] := by
  rw [follows.declared.nested]
  refine or_congr_right ?_
  constructor
  · rintro ⟨⟨place, node, setting⟩, visited, opening, opens, rfl⟩
    obtain ⟨found, stands⟩ := mem_programStations.1 visited
    obtain rfl : setting = programSetting root place := stands
    obtain ⟨kinds, some, suffix, rfl⟩ := Station.mem_openings.1 opens
    exact ⟨place, kinds, some, (kindsAt_eq found).symm ▸ suffix, rfl⟩
  · rintro ⟨place, kinds, some, suffix, rfl⟩
    cases found : root.tree.nodeAt? place with
    | none =>
      rw [kindsAt, found] at suffix
      exact absurd (List.suffix_nil.1 suffix) some
    | some node =>
      rw [kindsAt_eq found] at suffix
      exact ⟨⟨place, node, programSetting root place⟩, mem_programStations.2 ⟨found, rfl⟩, _,
        Station.mem_openings.2 ⟨kinds, some, suffix, rfl⟩, rfl⟩

theorem stack_zero : scopes.stack 0 = [.global] := by
  have known := follows.formed.length_pos
  have alone : (scopes.stack 0).length = 1 := by
    rw [stack, follows.formed.chain_zero]
    rfl
  rcases (follows.exists_stack_iff _).1 ⟨0, known, rfl⟩ with global | ⟨place, kinds, some, _, same⟩
  · exact global
  · have inner := List.length_pos_iff.2 some
    rw [same, regionsOf, List.length_append, List.length_append, List.length_map,
      List.length_singleton] at alone
    omega

theorem exists_stack_surroundings (place : Path) :
    ∃ number < scopes.length, scopes.stack number = surroundings root place ++ [.global] := by
  induction place with
  | nil => exact ⟨0, follows.formed.length_pos, follows.stack_zero⟩
  | cons step outer ih =>
    cases found : root.tree.nodeAt? outer with
    | none =>
      have same : surroundings root (step :: outer) = surroundings root outer := by
        rw [surroundings, programSetting, settingAt, found]
        rfl
      rw [same]
      exact ih
    | some node =>
      have around := surroundings_cons found step
      have suffix := scopeKindsAround_suffix (programSetting root outer).isBody node.form step.field
      rw [← kindsAt_eq found] at suffix
      by_cases none : scopeKindsAround (programSetting root outer).isBody node.form step.field = []
      · rw [around, Setting.aroundPart, none]
        exact ih
      · exact (follows.exists_stack_iff _).2
          (.inr ⟨outer, _, none, suffix, congrArg (· ++ _) around⟩)

theorem stack_of_ne_zero {number : Nat} (known : number < scopes.length) (inner : number ≠ 0) :
    ∃ kinds, kinds ≠ [] ∧ kinds <:+ kindsAt root (scopes.regionAt number).block
      ∧ scopes.stack number
        = regionsOf root (scopes.regionAt number).block kinds ++ [.global] := by
  rcases (follows.exists_stack_iff _).1 ⟨number, known, rfl⟩ with
    global | ⟨place, kinds, some, suffix, same⟩
  · exact absurd (follows.stack_inj known follows.formed.length_pos
      (global.trans follows.stack_zero.symm)) inner
  · obtain ⟨kind, outer, rfl⟩ := List.exists_cons_of_ne_nil some
    have block : (scopes.regionAt number).block = place :=
      congrArg Region.block (List.cons.inj same).1
    rw [block]
    exact ⟨_, some, suffix, same⟩

/-- A region around a scope is the region of a scope around it. -/
theorem mem_chain {number other : Nat} (known : number < scopes.length)
    (knownOther : other < scopes.length) (around : scopes.regionAt other ∈ scopes.stack number) :
    other ∈ scopes.chain number := by
  obtain ⟨same, member, region⟩ := List.mem_map.1 around
  have equal := follows.regionAt_inj (follows.formed.lt_of_mem_chain known member) knownOther region
  exact equal ▸ member

theorem chain_of_stack {number other : Nat} (known : number < scopes.length)
    (knownOther : other < scopes.length) {region : Region}
    (inside : scopes.stack number = region :: scopes.stack other) :
    scopes.chain number = number :: scopes.chain other := by
  cases number with
  | zero =>
    rw [follows.stack_zero] at inside
    exact absurd (List.cons.inj inside).2.symm (List.cons_ne_nil _ _)
  | succ below =>
    obtain ⟨upper, earlier, _, _, _, whole⟩ := follows.formed.chain_succ known
    have outer : scopes.stack upper = scopes.stack other := by
      rw [stack, whole] at inside
      exact (List.cons.inj inside).2
    rw [whole, follows.stack_inj (by omega) knownOther outer]

end Scopes.Follows

end TemplateLint.Scope
