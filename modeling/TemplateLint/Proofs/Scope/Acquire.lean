import TemplateLint.Proofs.Scope.Nesting
import TemplateLint.Proofs.Scope.References

/-!
# The scope found above a place

The scope of a place is found by going up from it to the first node that has a scope
(`Analysis.scopeAt`). The decorators of a class, the class it extends and the discriminant of a
`switch` statement are below such a node, but are evaluated before its scope is entered
(`headRegion?`). So **to mark the name of a reference marks the variable that the reference
belongs to, unless it stands in such a head and the name is declared inside** (`mark_reference`).
-/

namespace TemplateLint.Scope

open TemplateLint.Syntax

/-! ## The scope of a block -/

/-- The scope of a block. Of two scopes of one block it is the inner one; the global scope
belongs to no block. -/
structure Scopes.Registered (scopes : Scopes) (block : Path) (number : Nat) : Prop where
  proper : number ≠ 0
  here : ∃ scope, scopes[number]? = some scope ∧ scope.block = block
  innermost : ∀ other scope, other ≠ 0 → scopes[other]? = some scope → scope.block = block →
    other ∈ scopes.chain number

namespace Analysis

theorem scopeOf?_eq_some_iff {analysis : Analysis} {block : Path} {number : Nat} :
    analysis.scopeOf? block = some number
      ↔ number ≠ 0 ∧ (∃ scope, analysis.scopes[number]? = some scope ∧ scope.block = block)
        ∧ ∀ later scope, analysis.scopes[later]? = some scope → scope.block = block →
          later ≤ number := by
  have ordered := Fields.zipIdx_ordered analysis.scopes 0
  have known : ∀ scope number, (scope, number) ∈ analysis.scopes.zipIdx
      ↔ analysis.scopes[number]? = some scope := fun _ _ => List.mem_zipIdx_iff_getElem?
  rw [scopeOf?, Option.map_eq_some_iff]
  constructor
  · rintro ⟨⟨scope, _⟩, found, rfl⟩
    -- the scopes are searched from the last one back
    obtain ⟨holds, after, before, split, none⟩ := List.find?_eq_some_iff_append.1 found
    simp only [Bool.and_eq_true, bne_iff_ne, beq_iff_eq] at holds
    rw [List.reverse_eq_append_iff, List.reverse_cons, List.append_assoc] at split
    rw [split] at known ordered
    refine ⟨holds.1, ⟨scope, (known _ _).1 (by simp), holds.2⟩, fun later other found ofBlock => ?_⟩
    have listed := (known _ _).2 found
    rcases List.mem_append.1 listed with earlier | rest
    · exact Nat.le_of_lt ((List.pairwise_append.1 ordered).2.2 _ earlier _ (by simp))
    · rcases List.mem_append.1 rest with same | behind
      · exact Nat.le_of_eq (congrArg Prod.snd (List.mem_singleton.1 same))
      · have other := none _ (List.mem_reverse.1 behind)
        by_cases zero : later = 0
        · omega
        · simp [zero, ofBlock] at other
  · rintro ⟨proper, ⟨scope, found, ofBlock⟩, last⟩
    obtain ⟨before, after, split⟩ := List.append_of_mem ((known _ _).2 found)
    refine ⟨(scope, number), List.find?_eq_some_iff_append.2
      ⟨?_, after.reverse, before.reverse, ?_, ?_⟩, rfl⟩
    · simp [proper, ofBlock]
    · simp [split]
    · rintro ⟨other, later⟩ behind
      rw [split] at known ordered
      have behind := List.mem_reverse.1 behind
      have inOrder := (List.pairwise_cons.1 (List.pairwise_append.1 ordered).2.1).1 _ behind
      have found := (known other later).1 (List.mem_append_right _ (.tail _ behind))
      simp only [Bool.not_eq_true', Bool.and_eq_false_iff, bne_eq_false_iff_eq, beq_eq_false_iff_ne]
      exact .inr fun ofBlock => absurd (last later other found ofBlock) (by omega)

theorem scopeOf?_eq_none_iff {analysis : Analysis} {block : Path} :
    analysis.scopeOf? block = none ↔ ∀ number scope, number ≠ 0 →
      analysis.scopes[number]? = some scope → scope.block ≠ block := by
  simp only [scopeOf?, Option.map_eq_none_iff, List.find?_eq_none, List.mem_reverse, Prod.forall,
    List.mem_zipIdx_iff_getElem?, Bool.and_eq_true, bne_iff_ne, beq_iff_eq, not_and]
  exact ⟨fun none number scope proper found => none scope number found proper,
    fun none scope number found proper => none number scope proper found⟩

end Analysis

namespace Scopes.Follows

section Blocks

variable {scopes : Scopes} {root : Node} (follows : scopes.Follows root)

include follows

theorem mem_chain_of_suffix {number other : Nat} (known : number < scopes.length)
    (knownOther : other < scopes.length) {place : Path} {inside outside : List ScopeKind}
    (shorter : outside <:+ inside)
    (stack : scopes.stack number = regionsOf root place inside ++ [.global])
    (stackOther : scopes.stack other = regionsOf root place outside ++ [.global]) :
    other ∈ scopes.chain number := by
  have head : scopes.regionAt other ∈ scopes.stack other := List.mem_cons_self
  refine follows.mem_chain known knownOther ?_
  obtain ⟨more, rfl⟩ := shorter
  rw [stackOther] at head
  rw [stack, regionsOf, List.map_append, List.append_assoc, List.append_assoc]
  exact List.mem_append_right _ (by rwa [regionsOf, List.append_assoc] at head)

theorem mem_chain_or {number other : Nat} (known : number < scopes.length)
    (knownOther : other < scopes.length) (inner : number ≠ 0) (innerOther : other ≠ 0)
    (same : (scopes.regionAt other).block = (scopes.regionAt number).block) :
    other ∈ scopes.chain number ∨ number ∈ scopes.chain other := by
  obtain ⟨kinds, _, suffix, stack⟩ := follows.stack_of_ne_zero known inner
  obtain ⟨kindsOther, _, suffixOther, stackOther⟩ := follows.stack_of_ne_zero knownOther innerOther
  rw [same] at suffixOther stackOther
  rcases List.suffix_or_suffix_of_suffix suffixOther suffix with shorter | longer
  · exact .inl (follows.mem_chain_of_suffix known knownOther shorter stack stackOther)
  · exact .inr (follows.mem_chain_of_suffix knownOther known longer stackOther stack)

end Blocks

section Analyses

variable {analysis : Analysis} {root : Node} (follows : analysis.scopes.Follows root)

include follows

theorem scopeOf?_eq_some_iff {block : Path} {number : Nat} :
    analysis.scopeOf? block = some number ↔ analysis.scopes.Registered block number := by
  have blockAt : ∀ {number scope}, analysis.scopes[number]? = some scope →
      (analysis.scopes.regionAt number).block = scope.block := fun found =>
    congrArg Region.block (regionAt_of_getElem? found)
  rw [Analysis.scopeOf?_eq_some_iff]
  constructor
  · rintro ⟨proper, ⟨scope, found, rfl⟩, last⟩
    refine ⟨proper, ⟨scope, found, rfl⟩, fun other outer properOther foundOther same => ?_⟩
    have known := (List.getElem?_eq_some_iff.1 found).1
    have knownOther := (List.getElem?_eq_some_iff.1 foundOther).1
    rcases follows.mem_chain_or known knownOther proper properOther
      (by rw [blockAt found, blockAt foundOther, same]) with outside | inside
    · exact outside
    · have notLater := last other outer foundOther same
      have notEarlier := follows.formed.le_of_mem_chain knownOther inside
      rw [Nat.le_antisymm notLater notEarlier]
      exact List.mem_cons_self
  · rintro ⟨proper, ⟨scope, found, rfl⟩, innermost⟩
    refine ⟨proper, ⟨scope, found, rfl⟩, fun later other foundLater same => ?_⟩
    by_cases zero : later = 0
    · omega
    · exact follows.formed.le_of_mem_chain (List.getElem?_eq_some_iff.1 found).1
        (innermost later other zero foundLater same)

theorem scopeOf?_of_kinds_nil {place : Path} (empty : kindsAt root place = []) :
    analysis.scopeOf? place = none := by
  refine Analysis.scopeOf?_eq_none_iff.2 fun number scope proper found ofBlock => ?_
  have known := (List.getElem?_eq_some_iff.1 found).1
  obtain ⟨kinds, some, suffix, _⟩ := follows.stack_of_ne_zero known proper
  rw [regionAt_of_getElem? found, LexicalScope.region, ofBlock, empty] at suffix
  exact some (List.suffix_nil.1 suffix)

theorem scopeOf?_of_kinds {place : Path} (opens : kindsAt root place ≠ []) :
    ∃ number, analysis.scopeOf? place = some number ∧ number < analysis.scopes.length
      ∧ analysis.scopes.stack number = regionsOf root place (kindsAt root place) ++ [.global] := by
  obtain ⟨number, known, stack⟩ := (follows.exists_stack_iff _).2
    (.inr ⟨place, kindsAt root place, opens, List.suffix_rfl, rfl⟩)
  refine ⟨number, follows.scopeOf?_eq_some_iff.2 ⟨?_, ?_, ?_⟩, known, stack⟩
  · rintro rfl
    have lengths := congrArg List.length (follows.stack_zero.symm.trans stack)
    have some := List.length_pos_iff.2 opens
    simp only [regionsOf, List.length_append, List.length_map, List.length_singleton] at lengths
    omega
  · obtain ⟨kind, outer, split⟩ := List.exists_cons_of_ne_nil opens
    rw [split] at stack
    have found := List.getElem?_eq_getElem known
    have region := (regionAt_of_getElem? found).symm.trans (List.cons.inj stack).1
    exact ⟨_, found, congrArg Region.block region⟩
  · intro other scope proper found ofBlock
    have knownOther := (List.getElem?_eq_some_iff.1 found).1
    obtain ⟨kinds, _, suffix, stackOther⟩ := follows.stack_of_ne_zero knownOther proper
    rw [regionAt_of_getElem? found, LexicalScope.region, ofBlock] at suffix stackOther
    exact follows.mem_chain_of_suffix known knownOther suffix stack stackOther

end Analyses

end Scopes.Follows

/-! ## Going up from a place -/

/-- The regions found above a place: those of the nearest node, from the place itself upwards,
that opens a scope, and those around that node. -/
def climbed (root : Node) : Path → List Region
  | [] => regionsOf root [] (kindsAt root [])
  | step :: outer =>
    if kindsAt root (step :: outer) = [] then climbed root outer
    else regionsOf root (step :: outer) (kindsAt root (step :: outer))

theorem climbed_of_kinds {root : Node} {place : Path} (opens : kindsAt root place ≠ []) :
    climbed root place = regionsOf root place (kindsAt root place) := by
  cases place with
  | nil => rfl
  | cons step outer => rw [climbed, if_neg opens]

/-- **The scope found above a place has the regions found there.** -/
theorem Scopes.Follows.stack_scopeAt {analysis : Analysis} {root : Node}
    (follows : analysis.scopes.Follows root) (place : Path) :
    analysis.scopeAt place < analysis.scopes.length
      ∧ analysis.scopes.stack (analysis.scopeAt place) = climbed root place ++ [.global] := by
  by_cases opens : kindsAt root place = []
  · have none := follows.scopeOf?_of_kinds_nil opens
    cases place with
    | nil =>
      rw [Analysis.scopeAt, none, climbed, opens]
      exact ⟨follows.formed.length_pos, follows.stack_zero⟩
    | cons step outer =>
      rw [Analysis.scopeAt, none, climbed, if_pos opens]
      exact follows.stack_scopeAt outer
  · obtain ⟨number, found, known, stack⟩ := follows.scopeOf?_of_kinds opens
    have same : analysis.scopeAt place = number := by
      cases place <;> rw [Analysis.scopeAt, found, Option.getD_some]
    rw [same, climbed_of_kinds opens]
    exact ⟨known, stack⟩

/-! ## Heads of classes and `switch` statements -/

/-- The kind of scope that a form opens only after the part in a field: a class is entered
after its decorators and the class it extends, a `switch` statement after its discriminant. -/
def opensAfter? (form : Form) (field : Field) : Option ScopeKind :=
  match form with
  | .classDefinition .. => if field = .body then none else some .classBody
  | .switchStatement .. => if field = .cases then none else some .switch
  | _ => none

/-- The region of the class or `switch` statement in whose head a place stands, with no scope
opened in between. -/
def headRegion? (root : Node) : Path → Option Region
  | [] => none
  | step :: outer =>
    match (root.tree.nodeAt? outer).bind fun node => opensAfter? node.form step.field with
    | some kind => some ⟨kind, outer⟩
    | none => if kindsAt root outer = [] then headRegion? root outer else none

/-- The field that holds the name of a function, which is outside the function itself. -/
def isFunctionName (form : Form) (field : Field) : Bool :=
  match form with
  | .function .. => field = .id
  | _ => false

/-- The scopes of a form are around the part in a field, but for one that is opened later; the
name of a function is the only other exception. -/
theorem scopeKinds_eq (isBody : Bool) {form : Form} {field : Field}
    (proper : isFunctionName form field = false) :
    scopeKinds isBody form
      = (opensAfter? form field).toList ++ scopeKindsAround isBody form field := by
  cases form with
  | function =>
    rw [scopeKindsAround, if_neg (of_decide_eq_false proper)]
    rfl
  | classDefinition | switchStatement =>
    simp only [opensAfter?, scopeKindsAround]
    split <;> rfl
  | _ => rfl

theorem Visit.part_functionName (visit : Visit) {form : Form} {field : Field}
    (isName : isFunctionName form field = true) : visit.part form field = .skipped := by
  cases form with
  | function =>
    obtain rfl : field = .id := of_decide_eq_true isName
    cases visit with
    | skipped => rfl
    | visited mode => simp [Visit.part, Mode.part]
    | exported => rfl
  | _ => cases isName

/-- Above a place that is met are the regions around it and, if it stands in the head of a
class or `switch` statement, the region of that. -/
theorem climbed_of_met {root : Node} {place : Path}
    (met : visitAt root.tree (.visited .evaluate) place ≠ .skipped)
    (leaf : kindsAt root place = []) :
    climbed root place = (headRegion? root place).toList ++ surroundings root place := by
  induction place with
  | nil =>
    rw [climbed, leaf]
    rfl
  | cons step outer ih =>
    cases found : root.tree.nodeAt? outer with
    | none =>
      rw [visitAt, found] at met
      exact absurd rfl met
    | some node =>
      have visit : visitAt root.tree (.visited .evaluate) (step :: outer)
          = (visitAt root.tree (.visited .evaluate) outer).part node.form step.field := by
        rw [visitAt, found]
      rw [visit] at met
      have metOuter : visitAt root.tree (.visited .evaluate) outer ≠ .skipped := by
        intro skipped
        exact met (by rw [skipped]; rfl)
      have proper : isFunctionName node.form step.field = false :=
        Bool.eq_false_iff.2 fun isName => met (Visit.part_functionName _ isName)
      have kinds := scopeKinds_eq (programSetting root outer).isBody proper
      rw [← kindsAt_eq found] at kinds
      have around := surroundings_cons found step
      rw [Setting.aroundPart] at around
      rw [climbed, if_pos leaf, headRegion?, found, Option.bind_some, around]
      by_cases opens : kindsAt root outer = []
      · rw [opens] at kinds
        obtain ⟨noHead, noneAround⟩ := List.append_eq_nil_iff.1 kinds.symm
        rw [Option.toList_eq_nil_iff.1 noHead, noneAround, if_pos opens, ih metOuter opens]
        rfl
      · rw [climbed_of_kinds opens, if_neg opens, regionsOf, kinds, List.map_append,
          List.append_assoc]
        congr 1
        cases opensAfter? node.form step.field <;> rfl

/-! ## References -/

def Scopes.DeclaresIn (scopes : Scopes) (region : Region) (name : String) : Prop :=
  ∃ number, scopes.regionAt number = region ∧ Declares scopes number name

section References

variable {root : Node} (shaped : root.Shaped) (globals : List String) {reference : Reference}
  (member : reference ∈ (programTable root).references)

include shaped member

theorem stack_scopeAt_reference :
    (analyze root globals).scopes.stack ((analyze root globals).scopeAt reference.occurrence.place)
      = (headRegion? root reference.occurrence.place).toList
        ++ (analyze root globals).scopes.stack reference.scope := by
  have listed : reference ∈ (analyze root globals).references :=
    (references_analyze root globals).symm ▸ member
  have found := nodeAt?_of_mem_references listed
  have met : visitAt root.tree (.visited .evaluate) reference.occurrence.place ≠ .skipped := by
    intro skipped
    have none := referencesAt_eq_nil globals found (by rw [skipped]; rfl)
    have here : reference ∈ (analyze root globals).referencesAt reference.occurrence.place :=
      List.mem_filter.2 ⟨listed, by simp⟩
    rw [none] at here
    exact absurd here List.not_mem_nil
  have leaf : kindsAt root reference.occurrence.place = [] := kindsAt_eq found
  rw [((follows_analyze shaped globals).stack_scopeAt _).2, climbed_of_met met leaf,
    (stack_reference globals member).2, List.append_assoc]

theorem scopeAt_reference (noHead : headRegion? root reference.occurrence.place = none) :
    (analyze root globals).scopeAt reference.occurrence.place = reference.scope := by
  have follows := follows_analyze shaped globals
  have stack := stack_scopeAt_reference shaped globals member
  rw [noHead] at stack
  exact follows.stack_inj (follows.stack_scopeAt _).1 (stack_reference globals member).1 stack

theorem chain_scopeAt_reference {region : Region}
    (head : headRegion? root reference.occurrence.place = some region) :
    (analyze root globals).scopes.regionAt
        ((analyze root globals).scopeAt reference.occurrence.place) = region
      ∧ (analyze root globals).scopes.chain
        ((analyze root globals).scopeAt reference.occurrence.place)
          = (analyze root globals).scopeAt reference.occurrence.place
            :: (analyze root globals).scopes.chain reference.scope := by
  have follows := follows_analyze shaped globals
  have stack := stack_scopeAt_reference shaped globals member
  rw [head] at stack
  exact ⟨(List.cons.inj stack).1,
    follows.chain_of_stack (follows.stack_scopeAt _).1 (stack_reference globals member).1 stack⟩

theorem lookup?_scopeAt_of_not_declares
    (free : ∀ region ∈ headRegion? root reference.occurrence.place,
      ¬ (analyze root globals).scopes.DeclaresIn region reference.name) :
    (analyze root globals).scopes.lookup?
        ((analyze root globals).scopeAt reference.occurrence.place) reference.name
      = (analyze root globals).scopes.lookup? reference.scope reference.name := by
  cases head : headRegion? root reference.occurrence.place with
  | none => rw [scopeAt_reference shaped globals member head]
  | some region =>
    obtain ⟨own, chain⟩ := chain_scopeAt_reference shaped globals member head
    rw [Scopes.lookup?_of_chain chain, if_neg]
    rw [Scopes.isSome_find?_iff]
    exact fun declares => free region head ⟨_, own, declares⟩

theorem lookup?_scopeAt_of_declares {region : Region}
    (head : headRegion? root reference.occurrence.place = some region)
    (declares : (analyze root globals).scopes.DeclaresIn region reference.name) :
    (analyze root globals).scopes.lookup?
        ((analyze root globals).scopeAt reference.occurrence.place) reference.name
      = some ((analyze root globals).scopeAt reference.occurrence.place)
    ∧ (analyze root globals).scopes.lookup? reference.scope reference.name
      ≠ some ((analyze root globals).scopeAt reference.occurrence.place) := by
  have follows := follows_analyze shaped globals
  have known := (follows.stack_scopeAt reference.occurrence.place).1
  obtain ⟨own, chain⟩ := chain_scopeAt_reference shaped globals member head
  obtain ⟨number, same, scope, found, named⟩ := declares
  obtain rfl : number = (analyze root globals).scopeAt reference.occurrence.place :=
    follows.regionAt_inj (List.getElem?_eq_some_iff.1 found).1 known (same.trans own.symm)
  refine ⟨?_, fun belongs => ?_⟩
  · rw [Scopes.lookup?_of_chain chain, if_pos]
    exact (Scopes.isSome_find?_iff ..).2 ⟨scope, found, named⟩
  · have outer := List.mem_of_find?_eq_some belongs
    have earlier := follows.formed.le_of_mem_chain (stack_reference globals member).1 outer
    have inside : reference.scope
        ∈ (analyze root globals).scopes.chain
          ((analyze root globals).scopeAt reference.occurrence.place) := by
      rw [chain]
      exact .tail _ List.mem_cons_self
    have later := follows.formed.le_of_mem_chain known inside
    rw [Nat.le_antisymm earlier later] at chain
    exact absurd (congrArg List.length chain) (by simp)

end References

theorem Usage.mark_of_variableAt? {usage : Usage} {place : Path} {name : String}
    {id : VariableId} (found : usage.analysis.variableAt? place name = some id) :
    usage.mark place name = (⟨usage.analysis, usage.marks ++ [id]⟩, true) := by
  rw [mark, found]

/-- **To mark the name of a reference at its place marks the variable that it belongs to**,
except in the head of a class or `switch` statement whose own scope has a variable of that name;
there this variable, which is another one, is marked. -/
theorem mark_reference {source : String} {root : Node} (parsed : Grammar.parse source = .ok root)
    (globals : List String) (marks : List VariableId) {resolution : Resolution}
    (member : resolution ∈ (analyze root globals).resolutions) {scope : Nat}
    (resolves : resolution.scope? = some scope) :
    let usage : Usage := ⟨analyze root globals, marks⟩
    let place := resolution.reference.occurrence.place
    let name := resolution.reference.name
    ((∀ region ∈ headRegion? root place, ¬ usage.analysis.scopes.DeclaresIn region name) →
      usage.analysis.variableAt? place name = some ⟨scope, name⟩
        ∧ usage.mark place name = (⟨usage.analysis, marks ++ [⟨scope, name⟩]⟩, true))
    ∧ ∀ region ∈ headRegion? root place, usage.analysis.scopes.DeclaresIn region name →
      ∃ number ≠ scope, usage.analysis.scopes.regionAt number = region
        ∧ usage.analysis.variableAt? place name = some ⟨number, name⟩
        ∧ usage.mark place name = (⟨usage.analysis, marks ++ [⟨number, name⟩]⟩, true) := by
  intro usage place name
  have shaped := (Grammar.operand_of_parse parsed).1
  obtain ⟨listed, found⟩ := lookup?_of_mem_resolutions member
  have marked : ∀ number, usage.analysis.scopes.lookup? (usage.analysis.scopeAt place) name
      = some number → usage.analysis.variableAt? place name = some ⟨number, name⟩
        ∧ usage.mark place name = (⟨usage.analysis, marks ++ [⟨number, name⟩]⟩, true) := by
    intro number above
    have here : usage.analysis.variableAt? place name = some ⟨number, name⟩ :=
      congrArg (Option.map _) above
    exact ⟨here, Usage.mark_of_variableAt? here⟩
  refine ⟨fun free => marked scope ?_, fun region head declares => ?_⟩
  · exact (lookup?_scopeAt_of_not_declares shaped globals listed free).trans (found.trans resolves)
  · obtain ⟨above, elsewhere⟩ := lookup?_scopeAt_of_declares shaped globals listed head declares
    refine ⟨usage.analysis.scopeAt place, fun same => elsewhere ?_,
      (chain_scopeAt_reference shaped globals listed head).1, marked _ above⟩
    rw [found, resolves, same]

/-- In `let x; class A extends x {}` the reference to `x` stands in the head of a class that has
no `x` of its own, so that to mark `x` there marks the variable around the class. -/
theorem mark_reference_heritage : ∃ root,
    Grammar.parse "let x; class A extends x {}" = .ok root
      ∧ ∃ resolution ∈ (analyze root []).resolutions,
        headRegion? root resolution.reference.occurrence.place = some ⟨.classBody, [⟨.body, 1⟩]⟩
          ∧ resolution.scope? = some 1
          ∧ Usage.mark ⟨analyze root [], []⟩ resolution.reference.occurrence.place "x"
            = (⟨analyze root [], [⟨1, "x"⟩]⟩, true) := by
  have run : ((Grammar.parse "let x; class A extends x {}").toOption.any fun root =>
      (analyze root []).resolutions.any fun resolution =>
        headRegion? root resolution.reference.occurrence.place
            == some ⟨.classBody, [⟨.body, 1⟩]⟩
          && resolution.scope? == some 1 && resolution.reference.name == "x"
          && (analyze root []).scopes.all fun scope =>
            scope.region != ⟨.classBody, [⟨.body, 1⟩]⟩
              || !(scope.locals.map Variable.name).contains "x") = true := by
    decide +kernel
  obtain ⟨root, parsed, run⟩ := Grammar.exists_of_any_parse run
  simp only [List.any_eq_true, Bool.and_eq_true, beq_iff_eq] at run
  obtain ⟨resolution, member, ⟨⟨head, resolves⟩, name⟩, free⟩ := run
  have marked := (mark_reference parsed [] [] member resolves).1
  rw [name] at marked
  refine ⟨root, parsed, resolution, member, head, resolves, (marked ?_).2⟩
  rintro region above ⟨number, own, scope, found, named⟩
  obtain rfl : region = ⟨.classBody, [⟨.body, 1⟩]⟩ := Option.some.inj (above.symm.trans head)
  have others := List.all_eq_true.1 free scope (List.mem_of_getElem? found)
  rw [← Scopes.regionAt_of_getElem? found, own] at others
  simp [named] at others

/-- In `var x; switch (x) { case 1: let x; }` the discriminant refers to the variable of the
module, but to mark `x` there marks the variable of the cases. -/
theorem mark_discriminant_misses : ∃ root,
    Grammar.parse "var x; switch (x) { case 1: let x; }" = .ok root
      ∧ ∃ resolution ∈ (analyze root []).resolutions,
        resolution.reference.name = "x" ∧ resolution.scope? = some 1
          ∧ (Usage.mark ⟨analyze root [], []⟩ resolution.reference.occurrence.place "x").1.marks
            = [⟨2, "x"⟩] := by
  have run : ((Grammar.parse "var x; switch (x) { case 1: let x; }").toOption.any fun root =>
      (analyze root []).resolutions.any fun resolution =>
        resolution.reference.name == "x" && resolution.scope? == some 1
          && (Usage.mark ⟨analyze root [], []⟩ resolution.reference.occurrence.place "x").1.marks
            == [⟨2, "x"⟩]) = true := by
    decide +kernel
  obtain ⟨root, parsed, run⟩ := Grammar.exists_of_any_parse run
  simp only [List.any_eq_true, Bool.and_eq_true, beq_iff_eq] at run
  obtain ⟨resolution, member, ⟨name, resolves⟩, marks⟩ := run
  exact ⟨root, parsed, resolution, member, name, resolves, marks⟩

end TemplateLint.Scope
