import TemplateLint.Proofs.Scope.Nesting

/-!
# Where function declarations are seen

**The name of a function declaration is a variable of the innermost scope around it**
(`functionDeclaration_scopedAt`), in a block as well as in a function or module: it is seen
before and after the declaration, but a declaration in a block, loop, `switch` statement or
`catch` clause is not seen from outside of it (`functionDeclaration_not_hoisted`).
-/

namespace TemplateLint.Scope

open TemplateLint.Syntax

/-- A definition at a place makes a variable of the innermost scope around the place, and the
variable is seen from everywhere in that scope and from nowhere else. -/
structure Analysis.ScopedAt (analysis : Analysis) (root : Node) (place : Path)
    (definition : Occurrence) (number : Nat) : Prop where
  /-- The scope is the innermost one around the place. -/
  innermost : number < analysis.scopes.length
    ∧ analysis.scopes.stack number = surroundings root place ++ [.global]
  only : ∀ other scope, analysis.scopes[other]? = some scope →
    ((∃ binding ∈ scope.locals, binding.name = definition.id.name
      ∧ definition ∈ binding.definitions) ↔ other = number)
  /-- A reference to the name that stands in the scope, before or after the definition, belongs
  to this variable or to a variable of a scope inside. -/
  inside : ∀ resolution ∈ analysis.resolutions,
    resolution.reference.name = definition.id.name →
    surroundings root place <:+ surroundings root resolution.reference.occurrence.place →
    ∃ home ∈ analysis.scopes.chain resolution.reference.scope,
      resolution.scope? = some home ∧ number ∈ analysis.scopes.chain home
  /-- No such reference is free. -/
  bound : ∀ occurrence ∈ analysis.free, occurrence.id.name = definition.id.name →
    ¬ surroundings root place <:+ surroundings root occurrence.place
  /-- All references of the variable stand in the scope. -/
  outside : ∀ resolution ∈ analysis.resolutions,
    resolution.reference.name = definition.id.name → resolution.scope? = some number →
    surroundings root place <:+ surroundings root resolution.reference.occurrence.place

/-! ## Scopes around a place -/

section Scopes

variable {scopes : Scopes} {root : Node} (follows : scopes.Follows root) {place : Path}
  {number : Nat} (known : number < scopes.length)
  (stack : scopes.stack number = surroundings root place ++ [.global])

include stack

theorem Scopes.regionAt_of_stack :
    scopes.regionAt number = Region.innermost (surroundings root place) := by
  have head := congrArg List.head? stack
  cases around : surroundings root place with
  | nil | cons region outer =>
    rw [around] at head
    exact Option.some.inj head

include follows known

theorem Scopes.Follows.mem_chain_iff {inner : Path} {scope : Nat}
    (knownInner : scope < scopes.length)
    (stackInner : scopes.stack scope = surroundings root inner ++ [.global]) :
    number ∈ scopes.chain scope ↔ surroundings root place <:+ surroundings root inner := by
  constructor
  · intro member
    obtain ⟨nearer, whole⟩ := follows.formed.chain_suffix knownInner member
    have equal : (nearer.map scopes.regionAt ++ surroundings root place) ++ [.global]
        = surroundings root inner ++ [.global] := by
      rw [List.append_assoc, ← stack, ← stackInner, Scopes.stack, Scopes.stack, ← whole,
        List.map_append]
    exact ⟨_, List.append_cancel_right equal⟩
  · rintro ⟨nearer, whole⟩
    refine follows.mem_chain knownInner known ?_
    have own : scopes.regionAt number ∈ scopes.stack number := List.mem_cons_self
    rw [stackInner, ← whole, List.append_assoc, ← stack]
    exact List.mem_append_right _ own

end Scopes

/-! ## Definitions -/

section Definitions

variable {root : Node} (shaped : root.Shaped) (globals : List String) {place : Path}
  {definition : Occurrence}
  (found : root.tree.nodeAt? definition.place = some definition.id.node)
  (binds : (programSetting root definition.place).binds
    = [Region.innermost (surroundings root place)])

include found binds in
theorem Scopes.Follows.defines_iff {scopes : Scopes} (follows : scopes.Follows root) {number : Nat}
    (known : number < scopes.length)
    (region : scopes.regionAt number = Region.innermost (surroundings root place)) {other : Nat}
    {scope : LexicalScope} (foundOther : scopes[other]? = some scope) :
    (∃ binding ∈ scope.locals, binding.name = definition.id.name
      ∧ definition ∈ binding.definitions) ↔ other = number := by
  constructor
  · rintro ⟨binding, member, _, defines⟩
    rw [follows.declared.definitions scope (List.mem_of_getElem? foundOther) binding member]
      at defines
    have bound := (mem_binders_iff.1 (List.mem_filter.1 defines).1).2
    rw [binds, List.mem_singleton] at bound
    refine follows.regionAt_inj (List.getElem?_eq_some_iff.1 foundOther).1 known ?_
    rw [Scopes.regionAt_of_getElem? foundOther, bound, region]
  · rintro rfl
    obtain ⟨same, member, inRegion, binding, inLocals, named, defines⟩ :=
      follows.declared.bound definition.place definition.id found _
        (binds ▸ List.mem_singleton_self _)
    obtain ⟨again, foundAgain⟩ := List.mem_iff_getElem?.1 member
    obtain rfl : again = other :=
      follows.regionAt_inj (List.getElem?_eq_some_iff.1 foundAgain).1 known
        (by rw [Scopes.regionAt_of_getElem? foundAgain, inRegion, region])
    obtain rfl : same = scope := Option.some.inj (foundAgain.symm.trans foundOther)
    exact ⟨binding, inLocals, named, defines⟩

variable (definition)

include shaped found binds

/-- **A definition that is bound in the innermost region around a place is seen from
everywhere in that region.** -/
theorem exists_scopedAt :
    ∃ number, (analyze root globals).ScopedAt root place definition number := by
  have follows := follows_analyze shaped globals
  obtain ⟨number, known, stack⟩ := follows.exists_stack_surroundings place
  have region := Scopes.regionAt_of_stack stack
  have only : ∀ other scope, (analyze root globals).scopes[other]? = some scope →
      ((∃ binding ∈ scope.locals, binding.name = definition.id.name
        ∧ definition ∈ binding.definitions) ↔ other = number) :=
    fun _ _ foundOther => follows.defines_iff found binds known region foundOther
  have declares : Declares (analyze root globals).scopes number definition.id.name := by
    have own := List.getElem?_eq_getElem known
    obtain ⟨binding, member, named, _⟩ := (only number _ own).2 rfl
    exact ⟨_, own, List.mem_map.2 ⟨binding, member, named⟩⟩
  have inside : ∀ resolution ∈ (analyze root globals).resolutions,
      resolution.reference.name = definition.id.name →
      surroundings root place <:+ surroundings root resolution.reference.occurrence.place →
      ∃ home ∈ (analyze root globals).scopes.chain resolution.reference.scope,
        resolution.scope? = some home ∧ number ∈ (analyze root globals).scopes.chain home := by
    intro resolution member named within
    obtain ⟨listed, answer⟩ := lookup?_of_mem_resolutions member
    obtain ⟨knownScope, stackScope⟩ := stack_reference globals listed
    have around := (follows.mem_chain_iff known stack knownScope stackScope).2 within
    obtain ⟨home, outward, nearest, inner⟩ :=
      follows.formed.lookup?_of_mem_chain knownScope around declares
    rw [named, nearest] at answer
    exact ⟨home, outward, answer.symm, inner⟩
  refine ⟨number, ⟨known, stack⟩, only, inside, ?_, ?_⟩
  · intro occurrence free named within
    obtain ⟨resolution, member, given⟩ := List.mem_filterMap.1 free
    split at given
    next unresolved =>
      cases given
      obtain ⟨home, _, answer, _⟩ := inside resolution member named within
      simp [answer] at unresolved
    next => cases given
  · intro resolution member named belongs
    obtain ⟨listed, answer⟩ := lookup?_of_mem_resolutions member
    obtain ⟨knownScope, stackScope⟩ := stack_reference globals listed
    have outward := List.mem_of_find?_eq_some (answer.trans belongs)
    exact (follows.mem_chain_iff known stack knownScope stackScope).1 outward

end Definitions

/-! ## Function declarations -/

theorem Scopes.hoistTarget_eq_self_iff {scopes : Scopes} {number : Nat} {around : List Region}
    (known : number < scopes.length) (stack : scopes.stack number = around ++ [.global]) :
    scopes.hoistTarget number = number ↔ (scopes.regionAt number).kind.hoists = true := by
  have found := List.getElem?_eq_getElem known
  constructor
  · intro same
    have target := regionAt_hoistTarget stack
    rw [same] at target
    rw [target, Region.hoisting]
    cases nearest : around.find? fun region => region.kind.hoists with
    | none => rfl
    | some region => simpa using List.find?_some nearest
  · intro hoists
    rw [regionAt_of_getElem? found] at hoists
    have first : (scopes.chain number).find? (fun candidate =>
        ((scopes[candidate]?).map fun s => s.kind.hoists).getD true) = some number := by
      refine List.find?_cons_of_pos ?_
      rw [found]
      exact hoists
    rw [hoistTarget, first, Option.getD_some]

/-- **A named function declaration makes a variable of the innermost scope around it.** From
everywhere in that scope, before and after the declaration, the name is that variable or one of
a scope further inside, and is never free; elsewhere it is another variable. The scope is the
nearest one that takes hoisted variables only if it takes such variables itself, that is, if no
block, loop or other such scope is around the declaration in its function or module. -/
theorem functionDeclaration_scopedAt {source : String} {root : Node}
    (parsed : Grammar.parse source = .ok root) (globals : List String) {place : Path} {span : Span}
    {id : Ident} {params : List Node} {body : Node} {isAsync generator : Bool}
    (found : root.tree.nodeAt? place
      = some ⟨span, .function .declaration (some id) params body isAsync generator⟩) :
    ∃ number, (analyze root globals).ScopedAt root place ⟨place.child .id, id⟩ number
      ∧ ((analyze root globals).scopes.hoistTarget number = number
        ↔ ((analyze root globals).scopes.regionAt number).kind.hoists = true) := by
  have shaped := (Grammar.operand_of_parse parsed).1
  have name : root.tree.nodeAt? (place.child .id) = some id.node := by
    have listed : (⟨.id, 0⟩, id.tree) ∈ (Node.tree
        ⟨span, .function .declaration (some id) params body isAsync generator⟩).children := by
      rw [Node.tree, Form.fields]
      exact List.mem_cons_self
    exact Tree.nodeAt?_cons root.isView_tree found listed
  have binds : (programSetting root (place.child .id)).binds
      = [Region.innermost (surroundings root place)] := by
    rw [Path.child, programSetting_cons found]
    rfl
  obtain ⟨number, seen⟩ := exists_scopedAt shaped globals ⟨place.child .id, id⟩ name binds
  exact ⟨number, seen, Scopes.hoistTarget_eq_self_iff seen.innermost.1 seen.innermost.2⟩

/-- In `{ f(); function f() {} }` the function is a variable of the block, which does not take
hoisted variables. -/
theorem functionDeclaration_scopedAt_block : ∃ root,
    Grammar.parse "{ f(); function f() {} }" = .ok root
      ∧ ∃ id : Ident, id.name = "f" ∧ ∃ number, (analyze root []).ScopedAt root
          [⟨.body, 1⟩, ⟨.body, 0⟩] ⟨[⟨.id, 0⟩, ⟨.body, 1⟩, ⟨.body, 0⟩], id⟩ number
        ∧ (analyze root []).scopes.hoistTarget number ≠ number := by
  have run : ((Grammar.parse "{ f(); function f() {} }").toOption.any fun root =>
      (root.tree.nodeAt? [⟨.body, 1⟩, ⟨.body, 0⟩]).bind defaultExportName? == some "f"
        && hasArguments root ⟨.function, [⟨.body, 1⟩, ⟨.body, 0⟩]⟩
        && surroundings root [⟨.body, 1⟩, ⟨.body, 0⟩]
          == [⟨.block, [⟨.body, 0⟩]⟩, ⟨.module, []⟩]) = true := by
    decide +kernel
  obtain ⟨root, parsed, run⟩ := Grammar.exists_of_any_parse run
  simp only [Bool.and_eq_true, beq_iff_eq] at run
  obtain ⟨⟨name, isFunction⟩, around⟩ := run
  obtain ⟨⟨span, form⟩, found, name⟩ := Option.bind_eq_some_iff.1 name
  rw [hasArguments, found] at isFunction
  cases form with
  | function role id params body isAsync generator =>
    cases role with
    | expression => simp [defaultExportName?] at name
    | declaration =>
      obtain ⟨id, rfl, named⟩ := Option.map_eq_some_iff.1 name
      obtain ⟨number, seen, hoists⟩ := functionDeclaration_scopedAt parsed [] found
      have region := Scopes.regionAt_of_stack seen.innermost.2
      rw [around] at region
      refine ⟨root, parsed, id, named, number, seen, fun same => ?_⟩
      have taken := hoists.1 same
      rw [region] at taken
      cases taken
  | _ => simp at isFunction

/-- In `{ function f() {} } f();` the function is a variable of the block only, and the call
behind the block is free. -/
theorem functionDeclaration_not_hoisted : ∃ root,
    Grammar.parse "{ function f() {} } f();" = .ok root
      ∧ (analyze root []).scopes.map (fun scope => (scope.kind, scope.locals.map Variable.name))
        = [(.global, []), (.module, []), (.block, ["f"]), (.function, ["arguments"])]
      ∧ (analyze root []).free.map (·.id.name) = ["f"] := by
  have run : ((Grammar.parse "{ function f() {} } f();").toOption.any fun root =>
      (analyze root []).scopes.map (fun scope => (scope.kind, scope.locals.map Variable.name))
          == [(.global, []), (.module, []), (.block, ["f"]), (.function, ["arguments"])]
        && (analyze root []).free.map (·.id.name) == ["f"]) = true := by
    decide +kernel
  obtain ⟨root, parsed, run⟩ := Grammar.exists_of_any_parse run
  simp only [Bool.and_eq_true, beq_iff_eq] at run
  exact ⟨root, parsed, run⟩

end TemplateLint.Scope
