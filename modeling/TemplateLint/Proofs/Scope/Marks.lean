import TemplateLint.Proofs.Scope.Acquire
import TemplateLint.Proofs.Sorting
import TemplateLint.Rule.Standard

/-!
# Marked names

A name mentioned at a place stands for the nearest variable of that name, seen from the scope of
the nearest node above the place that has one (`Scopes.Above`, `Scopes.Mentions`). **To mark names
is to take a set of variables off the unused ones** (`unused_markAll`): one mark adds at most the
variable it finds (`Usage.mark_eq`), a run of them adds all of these (`Usage.markAll_eq`), and more
marks leave variables out of a sorted list (`Analysis.unused_append`).
-/

namespace TemplateLint.Scope

open TemplateLint.Syntax

/-- A name that is mentioned at a place. -/
structure Mention where
  place : Path
  name : String
  deriving DecidableEq, Repr

/-! ## What a mention stands for -/

namespace Scopes

/-- The scope that a place is seen from: that of the place itself, or else of the nearest node
above it that has a scope, and of none the global one. -/
inductive Above (scopes : Scopes) : Path → Nat → Prop where
  | here {place : Path} {number : Nat} (own : scopes.Registered place number) :
      Above scopes place number
  | further {step : Step} {outer : Path} {number : Nat}
      (none : ∀ other, ¬ scopes.Registered (step :: outer) other)
      (above : Above scopes outer number) : Above scopes (step :: outer) number
  | global (none : ∀ other, ¬ scopes.Registered [] other) : Above scopes [] 0

/-- The variable that a mention stands for: the nearest of its name outwards of the scope that
its place is seen from. -/
structure Mentions (scopes : Scopes) (mention : Mention) (id : VariableId) : Prop where
  named : id.name = mention.name
  declares : Declares scopes id.scope id.name
  nearest : ∃ start inner outer, scopes.Above mention.place start
    ∧ scopes.Outward start (inner ++ id.scope :: outer)
    ∧ ∀ other ∈ inner, ¬ Declares scopes other id.name

theorem WellFormed.outward_iff {scopes : Scopes} (formed : scopes.WellFormed) {scope : Nat}
    (known : scope < scopes.length) {path : List Nat} :
    scopes.Outward scope path ↔ path = scopes.chain scope := by
  constructor
  · intro outward
    induction outward with
    | @last scope s found alone =>
      have none : s.enclosing = [] := List.head?_eq_none_iff.1 alone
      rw [chain, found, Option.map_some, none]
      rfl
    | @next scope upper s rest found around further ih =>
      cases scope with
      | zero =>
        obtain ⟨first, foundFirst, alone⟩ := formed.outermost
        obtain rfl : s = first := Option.some.inj (found.symm.trans foundFirst)
        rw [LexicalScope.upper?, alone] at around
        cases around
      | succ below =>
        obtain ⟨next, earlier, same, foundSame, enclosing, whole⟩ := formed.chain_succ known
        obtain rfl : s = same := Option.some.inj (found.symm.trans foundSame)
        rw [LexicalScope.upper?, enclosing] at around
        obtain rfl : next = upper := Option.some.inj around
        rw [whole, ih (by omega)]
  · rintro rfl
    exact formed.outward_chain known

theorem WellFormed.lookup?_eq_some_iff {scopes : Scopes} (formed : scopes.WellFormed)
    {scope : Nat} (known : scope < scopes.length) {name : String} {home : Nat} :
    scopes.lookup? scope name = some home ↔ Declares scopes home name
      ∧ ∃ inner outer, scopes.Outward scope (inner ++ home :: outer)
        ∧ ∀ other ∈ inner, ¬ Declares scopes other name := by
  have undeclared : ∀ other, (!(scopes.find? other name).isSome) = true
      ↔ ¬ Declares scopes other name := by
    intro other
    rw [← isSome_find?_iff, Bool.not_eq_true', Bool.not_eq_true]
  rw [lookup?, List.find?_eq_some_iff_append, isSome_find?_iff]
  simp only [undeclared, formed.outward_iff known, eq_comm]

end Scopes

section Analyses

variable {analysis : Analysis} {root : Node} (follows : analysis.scopes.Follows root)

include follows

theorem Scopes.Follows.above_iff {place : Path} {number : Nat} :
    analysis.scopes.Above place number ↔ analysis.scopeAt place = number := by
  have registered : ∀ {block scope}, analysis.scopes.Registered block scope
      ↔ analysis.scopeOf? block = some scope := follows.scopeOf?_eq_some_iff.symm
  have unregistered : ∀ {block}, (∀ scope, ¬ analysis.scopes.Registered block scope)
      ↔ analysis.scopeOf? block = none := by
    intro block
    rw [Option.eq_none_iff_forall_ne_some]
    exact forall_congr' fun scope => not_congr registered
  constructor
  · intro above
    induction above with
    | @here place number own =>
      cases place <;> rw [Analysis.scopeAt, registered.1 own, Option.getD_some]
    | further none above ih =>
      rw [Analysis.scopeAt, unregistered.1 none, Option.getD_none, ih]
    | global none => rw [Analysis.scopeAt, unregistered.1 none, Option.getD_none]
  · rintro rfl
    induction place with
    | nil =>
      cases own : analysis.scopeOf? [] with
      | none =>
        rw [Analysis.scopeAt, own]
        exact .global (unregistered.2 own)
      | some number =>
        rw [Analysis.scopeAt, own]
        exact .here (registered.2 own)
    | cons step outer ih =>
      cases own : analysis.scopeOf? (step :: outer) with
      | none =>
        rw [Analysis.scopeAt, own]
        exact .further (unregistered.2 own) ih
      | some number =>
        rw [Analysis.scopeAt, own]
        exact .here (registered.2 own)

theorem Scopes.Follows.variableAt?_eq_some_iff {mention : Mention} {id : VariableId} :
    analysis.variableAt? mention.place mention.name = some id
      ↔ analysis.scopes.Mentions mention id := by
  have known := (follows.stack_scopeAt mention.place).1
  rw [Analysis.variableAt?, Analysis.lookup?, Option.map_eq_some_iff]
  constructor
  · rintro ⟨home, found, rfl⟩
    obtain ⟨declares, inner, outer, outward, nearer⟩ :=
      (follows.formed.lookup?_eq_some_iff known).1 found
    exact ⟨rfl, declares, _, inner, outer, follows.above_iff.2 rfl, outward, nearer⟩
  · rintro ⟨named, declares, start, inner, outer, above, outward, nearer⟩
    obtain ⟨home, name⟩ := id
    obtain rfl : name = mention.name := named
    obtain rfl := follows.above_iff.1 above
    exact ⟨home, (follows.formed.lookup?_eq_some_iff known).2
      ⟨declares, inner, outer, outward, nearer⟩, rfl⟩

end Analyses

/-! ## Unused variables -/

namespace Analysis

theorem isUnused_append (analysis : Analysis) (marks more : List VariableId) (id : VariableId)
    (binding : Variable) :
    analysis.isUnused (marks ++ more) id binding
      = (analysis.isUnused marks id binding && !more.contains id) := by
  simp only [isUnused, List.contains_append, Bool.not_or]
  ac_rfl

/-- **More marks leave variables out and keep the others in their order.** -/
theorem unused_append (analysis : Analysis) (marks more : List VariableId) :
    analysis.unused (marks ++ more)
      = (analysis.unused marks).filter fun entry => !more.contains entry.id := by
  rw [unused, unused, filter_mergeSort (by grind) (by grind), List.filter_filterMap]
  congr 1
  refine List.filterMap_congr ?_
  rintro ⟨id, binding⟩ _
  simp only [isUnused_append]
  cases analysis.isUnused marks id binding with
  | false => rfl
  | true => cases binding.definitions.head? <;> simp [Option.filter]

end Analysis

/-! ## Marks -/

namespace Usage

/-- A name is marked as used if it denotes a variable at its place. -/
theorem mark_eq (usage : Usage) (place : Path) (name : String) :
    usage.mark place name
      = (⟨usage.analysis, usage.marks ++ (usage.analysis.variableAt? place name).toList⟩,
        (usage.analysis.variableAt? place name).isSome) := by
  rw [mark]
  cases usage.analysis.variableAt? place name with
  | none => rw [Option.toList_none, List.append_nil]; rfl
  | some id => rfl

/-- Marks names one after another; the answers are in the same order. -/
def markAll (usage : Usage) : List Mention → Usage × List Bool
  | [] => (usage, [])
  | mention :: rest =>
    let (next, found) := usage.mark mention.place mention.name
    let (last, later) := next.markAll rest
    (last, found :: later)

theorem markAll_eq (usage : Usage) (mentions : List Mention) :
    usage.markAll mentions
      = (⟨usage.analysis, usage.marks ++ mentions.filterMap fun mention =>
          usage.analysis.variableAt? mention.place mention.name⟩,
        mentions.map fun mention =>
          (usage.analysis.variableAt? mention.place mention.name).isSome) := by
  induction mentions generalizing usage with
  | nil => simp [markAll]
  | cons mention rest ih =>
    simp only [markAll, mark_eq, ih, List.filterMap_cons, List.map_cons]
    cases usage.analysis.variableAt? mention.place mention.name <;> simp

end Usage

/-- **To mark names is to take the variables they stand for off the unused ones.** Whatever is
marked, in whatever order and however often, the others are left in their order; a mark finds a
variable exactly if there is one to stand for; and the analysis, with all declarations,
references and free references, is the same as before. -/
theorem unused_markAll {source : String} {root : Node} (parsed : Grammar.parse source = .ok root)
    (globals : List String) (marks : List VariableId) (mentions : List Mention) :
    let usage : Usage := ⟨analyze root globals, marks⟩
    let after := usage.markAll mentions
    (∃ isMentioned : VariableId → Bool,
      (∀ id, isMentioned id = true
        ↔ ∃ mention ∈ mentions, usage.analysis.scopes.Mentions mention id)
      ∧ after.1.unused = usage.unused.filter fun entry => !isMentioned entry.id)
    ∧ List.Forall₂ (fun mention answer => answer = true
        ↔ ∃ id, usage.analysis.scopes.Mentions mention id) mentions after.2
    ∧ after.1.analysis = usage.analysis := by
  intro usage after
  have follows := follows_analyze (Grammar.operand_of_parse parsed).1 globals
  have run : after = _ := usage.markAll_eq mentions
  rw [run]
  refine ⟨⟨fun id => (mentions.filterMap fun mention =>
      usage.analysis.variableAt? mention.place mention.name).contains id, fun id => ?_, ?_⟩,
    ?_, rfl⟩
  · rw [List.contains_iff_mem, List.mem_filterMap]
    exact exists_congr fun mention => and_congr_right fun _ => follows.variableAt?_eq_some_iff
  · exact Analysis.unused_append ..
  · rw [List.forall₂_map_right_iff, List.forall₂_same]
    intro mention _
    rw [Option.isSome_iff_exists]
    exact exists_congr fun id => follows.variableAt?_eq_some_iff

/-- In `let x; { let x; }` to mark `x` twice at the block takes the inner variable off, and not
the outer one. -/
theorem unused_markAll_shadowed : ∃ root,
    Grammar.parse "let x; { let x; }" = .ok root ∧ ∃ isMentioned : VariableId → Bool,
      isMentioned ⟨2, "x"⟩ = true ∧ isMentioned ⟨1, "x"⟩ = false
        ∧ (Usage.markAll ⟨analyze root [], []⟩
            [⟨[⟨.body, 1⟩], "x"⟩, ⟨[⟨.body, 1⟩], "x"⟩]).1.unused
          = (Usage.unused ⟨analyze root [], []⟩).filter fun entry => !isMentioned entry.id := by
  have run : ((Grammar.parse "let x; { let x; }").toOption.any fun root =>
      (analyze root []).variableAt? [⟨.body, 1⟩] "x" == some ⟨2, "x"⟩) = true := by
    decide +kernel
  obtain ⟨root, parsed, run⟩ := Grammar.exists_of_any_parse run
  simp only [beq_iff_eq] at run
  have follows := follows_analyze (Grammar.operand_of_parse parsed).1 []
  obtain ⟨⟨isMentioned, mentioned, filtered⟩, _⟩ :=
    unused_markAll parsed [] [] [⟨[⟨.body, 1⟩], "x"⟩, ⟨[⟨.body, 1⟩], "x"⟩]
  refine ⟨root, parsed, isMentioned, ?_, ?_, filtered⟩
  · exact (mentioned _).2 ⟨_, List.mem_cons_self, follows.variableAt?_eq_some_iff.1 run⟩
  · refine Bool.eq_false_iff.2 fun wrong => ?_
    obtain ⟨mention, member, stands⟩ := (mentioned _).1 wrong
    obtain rfl : mention = ⟨[⟨.body, 1⟩], "x"⟩ := by simpa using member
    have found := follows.variableAt?_eq_some_iff.2 stands
    rw [run] at found
    simp at found

end TemplateLint.Scope

/-! ## Tags -/

namespace TemplateLint.Rule

open TemplateLint.Scope

/-- The names of the opening tags of a program. -/
def tagMentions (context : Context) : List Mention :=
  context.tree.places.filterMap fun (place, view) =>
    match view.node.form with
    | .jsxOpening tag _ _ => some ⟨place, tag.root⟩
    | _ => none

theorem marks_tagUses (context : Context) (options : Entries Json) (shared : Shared) :
    ∃ next, tagUses.check context options shared = .ok (next, [])
      ∧ next.marks
        = (Usage.markAll ⟨context.analysis, shared.marks⟩ (tagMentions context)).1.marks := by
  refine ⟨_, rfl, ?_⟩
  rw [Usage.markAll_eq, tagMentions, List.filterMap_filterMap]
  refine congrArg _ (List.filterMap_congr ?_)
  rintro ⟨place, ⟨span, form⟩, _, _⟩ _
  cases form <;> rfl

end TemplateLint.Rule
