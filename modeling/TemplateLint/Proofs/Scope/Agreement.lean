import TemplateLint.Proofs.Scope.Parts

/-!
# Events do what their stations do

**The events of a shaped node open the regions that its stations open and declare the names that
its stations declare** (`acts`). Parts are met as their settings ask for (`takes_parts`), so what is
left are the forms that open scopes around some of their parts only, bind names of their own or
visit their parts in an order of their own (`formActs`).
-/

namespace TemplateLint.Scope

open TemplateLint.Syntax
open TemplateLint.Syntax.Fields (one optional many sparse text texts flag literal treeOf)

/-! ## Parts -/

section Parts

variable {key : Key} {setting : Setting} {here : Path} {mode : Mode} {span : Span} {form : Form}

theorem takes_key {node : Node} {computed : Bool}
    (plain : computed = false → node.isPlainKey = true) (free : setting.binds = []) :
    setting.Takes key node.tree (.evaluatedIf computed) := by
  cases computed with
  | true => exact free
  | false => exact fun place => treeEffects_plainKey key setting place (plain rfl) free

variable (suits : setting.Suits ⟨span, form⟩ mode)

include suits

theorem suits_passedOn (here : Path) : form.fields.All fun field tree =>
    form.passesOn field = true → (setting.part form here field).Suits tree.node mode.inner := by
  intro child member passes
  have inherits : (setting.part form here child.1.field).around = setting.around
      ∧ (setting.part form here child.1.field).binds = setting.binds
      ∧ Node.isDeclarator ⟨span, form⟩ = false := by
    cases form with
    | arrayPattern | objectPattern | restElement => exact ⟨rfl, rfl, rfl⟩
    | assignmentPattern | property =>
      simp only [Form.passesOn, beq_iff_eq] at passes
      simp [Setting.part, Setting.aroundPart, Setting.boundPart, scopeKindsAround, scopeKinds,
        passes, Node.isDeclarator]
    | _ => cases passes
  obtain ⟨same, bound, noDeclarator⟩ := inherits
  cases mode with
  | evaluate => exact bound.trans suits
  | assign => exact bound.trans suits
  | declare kind hoisted written =>
    obtain ⟨target, pattern | declarator⟩ := suits
    · exact ⟨by rw [bound, same, target], .inl (Node.isBinding_part pattern child member passes)⟩
    · rw [noDeclarator] at declarator
      cases declarator

/-- The names of functions, classes and imports are bound by the form itself. -/
def bindsName : Form → Field → Bool
  | .function .., field | .classDefinition .., field => field = .id
  | .importDeclaration .., field => field = .specifiers
  | _, _ => false

/-- The modes in which the parts of a shaped form are visited are those that their settings ask for.
-/
theorem takes_parts (shaped : form.Shaped) (key : Key) (here : Path) :
    form.fields.All fun field tree => bindsName form field = false →
      (setting.part form here field).Takes key tree (mode.part form field) := by
  cases form with
  -- names and patterns
  | arrayPattern | objectPattern | restElement =>
    exact fun child member _ => suits_passedOn suits here child member rfl
  | assignmentPattern =>
    have passed := suits_passedOn suits here
    simp only [Form.fields, Fields.all_append, Fields.all_one] at passed ⊢
    exact ⟨fun _ => passed.1 rfl, fun _ => rfl⟩
  | property =>
    have passed := suits_passedOn suits here
    simp only [Form.fields, Fields.all_append, Fields.all_one, Fields.all_text, Fields.all_flag,
      and_true] at passed ⊢
    exact ⟨fun _ => takes_key shaped.1 rfl, fun _ => passed.2 rfl⟩
  | variableDeclarator =>
    simp only [Form.fields, Fields.all_append, Fields.all_one, Fields.all_treeOf?]
    refine ⟨fun _ => ?_, fun _ _ _ => rfl⟩
    cases mode with
    | evaluate => exact suits
    | assign => exact suits
    | declare => exact ⟨suits.1, .inl (by rw [Node.node_tree]; exact shaped.1)⟩
  | variableDeclaration =>
    simp only [Form.fields, Fields.all_append, Fields.all_treesOf, Fields.all_text, and_true]
    exact fun node member _ => ⟨rfl, .inr (by simpa using shaped.1 node member)⟩
  -- modules
  | importDeclaration =>
    simp only [Form.fields, Fields.all_append, Fields.all_treesOf, Fields.all_one]
    exact ⟨fun _ _ binds => Bool.noConfusion binds,
      fun _ place => treeEffects_literal key _ place shaped.1.2⟩
  | importSpecifier | importDefault | importNamespace =>
    have free := suits.free rfl rfl
    simp [Form.fields, Setting.Takes, Mode.part, treeEffects_ident, Setting.part,
      Setting.boundPart, free]
  | exportNamed =>
    simp only [Form.fields, Fields.all_append, Fields.all_treeOf?, Fields.all_treesOf]
    refine ⟨⟨fun _ _ _ => rfl, fun node member _ => ?_⟩,
      fun node member _ place => treeEffects_literal key _ place (shaped.1.2.1 node member)⟩
    have nothing := fun setting place =>
      treeEffects_exportSpecifier key setting place (shaped.1.1 node member)
    simp only [Mode.part, reduceCtorEq, if_false, if_true]
    split <;> exact nothing _
  | exportAll =>
    simp only [Form.fields, Fields.all_one]
    exact fun _ place => treeEffects_literal key _ place shaped.1
  -- functions and classes
  | function =>
    simp only [Form.fields, Fields.all_append, Fields.all_ident?, Fields.all_treesOf,
      Fields.all_one, Fields.all_flag, and_true]
    exact ⟨⟨fun _ _ binds => Bool.noConfusion binds,
      fun node member _ => ⟨rfl, .inl (by simpa using shaped.1 node member)⟩⟩, fun _ => rfl⟩
  | arrowFunction | catchClause =>
    simp only [Form.fields, Fields.all_append, Fields.all_treesOf, Fields.all_treeOf?,
      Fields.all_one, Fields.all_flag, and_true]
    exact ⟨fun node member _ => ⟨rfl, .inl (by simpa using shaped.1 node member)⟩, fun _ => rfl⟩
  | classDefinition =>
    intro child member name
    have other : child.1.field ≠ .id := by simpa [bindsName] using name
    simp [Setting.Takes, Setting.Suits, Mode.part, Setting.part, Setting.boundPart, other]
  | methodDefinition | classProperty =>
    simp only [Form.fields, Fields.all_append, Fields.all_treesOf, Fields.all_treeOf?,
      Fields.all_one, Fields.all_text, Fields.all_flag, and_true]
    refine ⟨⟨fun _ _ _ => rfl, fun _ => takes_key shaped.1 rfl⟩, ?_⟩
    first | exact fun _ => rfl | exact fun _ _ _ => rfl
  | member =>
    simp only [Form.fields, Fields.all_append, Fields.all_one, Fields.all_flag, and_true]
    exact ⟨fun _ => rfl, fun _ => takes_key shaped.1 rfl⟩
  -- writes
  | assignment | update | forInStatement | forOfStatement =>
    intro child member _
    simp only [Mode.part]
    split <;> rfl
  -- names that are no variables
  | exportSpecifier | labeledStatement | breakStatement | continueStatement | jsxOpening
  | jsxAttribute | jsxClosing =>
    simp [Form.fields, Setting.Takes, Setting.Suits, Mode.part, treeEffects_ident, Setting.part,
      Setting.boundPart]
  | jsxName name =>
    rw [Form.fields]
    exact name.all_children fun field part _ place => treeEffects_tagName ..
  | jsxElement =>
    simp only [Form.fields, Fields.all_append, Fields.all_one, Fields.all_treesOf,
      Fields.all_treeOf?]
    exact ⟨⟨fun _ => rfl, fun _ _ _ => rfl⟩,
      fun node member _ place => treeEffects_closingTag key _ place (shaped.1 node member)⟩
  | _ => exact fun _ _ _ => rfl

end Parts

/-! ## Forms -/

section Forms

variable {key : Key} {setting : Setting} {here : Path} (below : setting.Below here) (mode : Mode)
  (span : Span)

/-- The regions around a function: the name of an expression is in a scope of its own. -/
def Setting.aroundFunction (setting : Setting) (here : Path) (role : Role) (id : Option Ident) :
    List Region :=
  (if role == .expression && id.isSome then [.functionName] else []).map (⟨·, here⟩)
    ++ setting.around

/-- The events of a form have the effects of its stations, as far as one key is concerned. -/
def FormActs (key : Key) (setting : Setting) (here : Path) (mode : Mode) (span : Span)
    (form : Form) : Prop :=
  pick key (effects setting.around
      (arrangement mode setting.isBody here span form (partEvents mode form here)))
    = treeEffects key setting here (Node.tree ⟨span, form⟩)

theorem treeEffects_forEach {form : Form} {left right body : Node}
    (loop : form = .forInStatement left right body ∨ form = .forOfStatement left right body) :
    treeEffects key setting here (Node.tree ⟨span, form⟩)
      = pick key (Station.effects ⟨here, ⟨span, form⟩, setting⟩)
        ++ treeEffects key (setting.part form here .right) (here.child .right) right.tree
        ++ treeEffects key (setting.part form here .left) (here.child .left) left.tree
        ++ treeEffects key (setting.part form here .body) (here.child .body) body.tree := by
  have children : form.fields
      = one .left left.tree ++ one .right right.tree ++ one .body body.tree := by
    rcases loop with rfl | rfl <;> rw [Form.fields]
  have swapped : ∀ first second third : List Station,
      arrange form [first, second, third] = [second, first, third] := by
    rcases loop with rfl | rfl <;> exact fun _ _ _ => rfl
  have visited : childStations (setting.part form here) here form.fields.children
      = [stations (setting.part form here .left) (here.child .left) left.tree,
        stations (setting.part form here .right) (here.child .right) right.tree,
        stations (setting.part form here .body) (here.child .body) body.tree] := by
    have listed : form.fields.children
        = [(⟨.left, 0⟩, left.tree), (⟨.right, 0⟩, right.tree), (⟨.body, 0⟩, body.tree)] := by
      rw [children]
      rfl
    simp [listed, childStations, Path.child]
  rw [treeEffects, stations_tree, visited, swapped]
  simp [treeEffects]

theorem formActs_identifier {form : Form} {name : String} (is : form = .identifier name)
    (suits : setting.Suits ⟨span, form⟩ mode) : FormActs key setting here mode span form := by
  subst is
  rw [FormActs, treeEffects_tree key setting here span fun _ => rfl, Form.fields, fieldEffects_text,
    List.append_nil]
  cases mode with
  | evaluate | assign =>
    have free : setting.binds = [] := suits
    simp [arrangement, Mode.identifier, effects, Event.effect?, Station.effects_mk, scopeKinds,
      Station.openings, Station.declares, free]
  | declare kind hoisted written =>
    obtain ⟨bound, _⟩ := suits
    cases written <;>
      simp [arrangement, Mode.identifier, effects, Event.effect?, Station.effects_mk, scopeKinds,
        Station.openings, Station.declares, bound]

variable {form : Form} (acts : PartsAct key form.fields)

include below acts

/-- Forms with the same scope, or none, around all parts. -/
theorem formActs_of_scopeIf (condition : Bool) (kind : ScopeKind) {others : List Event}
    (takes : setting.TakesParts key here mode form form.fields)
    (still : ∀ parts : List (List Station), arrange form parts = parts)
    (silent : Station.declares ⟨here, ⟨span, form⟩, setting⟩ = [])
    (opens : scopeKinds setting.isBody form = if condition then [kind] else [])
    (same : ∀ field, scopeKindsAround setting.isBody form field = scopeKinds setting.isBody form)
    (whole : arrangement mode setting.isBody here span form (partEvents mode form here)
      = inScopeIf condition kind here (partEvents mode form here form.fields) ++ others)
    (nothing : effects setting.around others = []) : FormActs key setting here mode span form := by
  have around : ∀ field, (setting.part form here field).around
      = (if condition then [kind] else []).map (⟨·, here⟩) ++ setting.around := by
    intro field
    rw [← opens, ← same field]
    rfl
  have inner := effects_partEvents below mode _ acts takes _ fun child _ => around child.1.field
  rw [FormActs, treeEffects_tree key setting here span still, whole, effects_append,
    regionsAfter_inScopeIf _ _ _ _ fun _ => regionsAfter_partEvents .., nothing, List.append_nil,
    effects_inScopeIf, Station.effects_mk, silent, opens, List.append_nil, pick_append, inner]

theorem formActs_forEach {left right body : Node}
    (takes : setting.TakesParts key here mode form form.fields)
    (loop : form = .forInStatement left right body ∨ form = .forOfStatement left right body) :
    FormActs key setting here mode span form := by
  have fields : form.fields
      = one .left left.tree ++ one .right right.tree ++ one .body body.tree := by
    rcases loop with rfl | rfl <;> rw [Form.fields]
  have events : arrangement mode setting.isBody here span form (partEvents mode form here)
      = inScopeIf (isLoopLocal left) .loop here (partEvents mode form here
        (one .right right.tree ++ one .left left.tree ++ one .body body.tree)) := by
    rcases loop with rfl | rfl <;> rfl
  have own : Station.effects ⟨here, ⟨span, form⟩, setting⟩
      = (Station.openings setting.around here
        (if isLoopLocal left then [.loop] else [])).map .opened := by
    rcases loop with rfl | rfl <;> exact List.append_nil _
  have around : ∀ field, (setting.part form here field).around
      = (if isLoopLocal left then [.loop] else []).map (⟨·, here⟩) ++ setting.around := by
    rcases loop with rfl | rfl <;> exact fun _ => rfl
  simp only [Setting.TakesParts, fields, partsAct_append, Fields.all_append] at acts takes
  have inner := effects_partEvents below mode form
    ((partsAct_append ..).2 ⟨(partsAct_append ..).2 ⟨acts.1.2, acts.1.1⟩, acts.2⟩)
    ((Fields.all_append _ _).2 ⟨(Fields.all_append _ _).2 ⟨takes.1.2, takes.1.1⟩, takes.2⟩)
    _ fun child _ => around child.1.field
  rw [FormActs, treeEffects_forEach span loop, events, own, effects_inScopeIf, pick_append, inner]
  simp

theorem formActs_switchStatement {discriminant : Node} {cases : List Node}
    (takes : setting.TakesParts key here mode form form.fields)
    (is : form = .switchStatement discriminant cases) :
    FormActs key setting here mode span form := by
  subst is
  simp only [Setting.TakesParts, Form.fields, partsAct_append, Fields.all_append] at acts takes
  have tested := effects_partEvents below mode _ acts.1 takes.1 setting.around (by simp; rfl)
  have chosen := effects_partEvents below mode _ acts.2 takes.2 (⟨.switch, here⟩ :: setting.around)
    (by simp; exact fun _ _ => rfl)
  have about : ∀ effect ∈ fieldEffects key
      (setting.part (.switchStatement discriminant cases) here) here
      (one .discriminant discriminant.tree), effect.key = key := fun _ => key_of_mem_pick
  rw [FormActs, treeEffects_tree key setting here span fun _ => rfl, arrangement, effects_append,
    regionsAfter_partEvents, effects_inScope, pick_append, pick_cons, tested, chosen, Form.fields,
    fieldEffects_append, ← List.append_assoc, ← only_opened_comm _ about]
  simp [Station.effects_mk, scopeKinds, Station.openings, Station.declares]

omit below acts in
theorem formActs_importDeclaration {specifiers : List Node} {source : Node}
    (shaped : form.Shaped) (is : form = .importDeclaration specifiers source) :
    FormActs key setting here mode span form := by
  subst is
  rw [FormActs, treeEffects_of_idle key setting here span (fun _ => rfl) rfl, arrangement,
    Form.fields, fieldEffects_append, fieldEffects_one, treeEffects_literal _ _ _ shaped.1.2,
    List.append_nil]
  exact effects_importEvents key here shaped.1.1 rfl

omit acts

section Functions

variable {role : Role} {id : Option Ident} {params : List Node} {body : Node}
  {isAsync generator : Bool} (is : form = .function role id params body isAsync generator)

include is

omit below in
theorem around_functionPart (field : Field) :
    (setting.part form here field).around = if field = .id then setting.aroundFunction here role id
      else ⟨.function, here⟩ :: setting.aroundFunction here role id := by
  subst is
  cases role <;> cases id <;> by_cases name : field = .id <;>
    simp [Setting.part, Setting.aroundPart, scopeKindsAround, scopeKinds, Setting.aroundFunction,
      name]

theorem effects_functionParts
    (acts : PartsAct key (many .params (treesOf params) ++ one .body body.tree))
    (takes : setting.TakesParts key here mode form
      (many .params (treesOf params) ++ one .body body.tree)) :
    pick key (effects (⟨.function, here⟩ :: setting.aroundFunction here role id)
        (partEvents mode form here form.fields))
      = fieldEffects key (setting.part form here) here
        (many .params (treesOf params) ++ one .body body.tree) := by
  have events : partEvents mode form here form.fields
      = partEvents mode form here (many .params (treesOf params) ++ one .body body.tree) := by
    subst is
    have skipped : partEvents mode (.function role id params body isAsync generator) here
        (.optional .id (id.map Ident.tree)) = [] :=
      partEvents_of_skips _ _ _ ((Fields.all_ident? ..).2 fun _ _ => rfl)
    simp [Form.fields, partEvents_append, skipped, partEvents_of_children_nil, flag]
  rw [events]
  exact effects_partEvents below mode _ acts takes _ (by simp [around_functionPart is])

/-- Stations come to the name of a function after the function itself. -/
theorem functionName_comm (key : Key) (kind : VariableKind) :
    pick key (effects (setting.aroundFunction here role id) (nameEvents here kind id))
        ++ pick key [.opened (⟨.function, here⟩ :: setting.aroundFunction here role id),
          .declared ⟨.function, here⟩ "arguments" none]
      = pick key [.opened (⟨.function, here⟩ :: setting.aroundFunction here role id),
          .declared ⟨.function, here⟩ "arguments" none]
        ++ fieldEffects key (setting.part form here) here (.optional .id (id.map Ident.tree)) := by
  have bound : (setting.part form here .id).binds
      = [Region.innermost (setting.aroundFunction here role id)] := by
    refine Eq.trans ?_ (congrArg (fun around => [Region.innermost around])
      (around_functionPart is .id))
    subst is
    rfl
  have other : Region.innermost (setting.aroundFunction here role id) ≠ ⟨.function, here⟩ := by
    rw [Setting.aroundFunction]
    split
    · simp [Region.innermost]
    · exact below.innermost_ne (by decide)
  rw [fieldEffects_ident?, bound, effects_nameEvents]
  cases id with
  | none => simp
  | some id =>
    simp only [Option.toList, List.flatMap_cons, List.flatMap_nil, List.map_cons, List.map_nil,
      pick_cons, pick_nil, List.append_nil]
    refine only_declared_comm _ _ ?_
    rintro rfl
    simp [Effect.only, Effect.key, other.symm]

theorem formActs_function
    (acts : PartsAct key (many .params (treesOf params) ++ one .body body.tree))
    (takes : setting.TakesParts key here mode form
      (many .params (treesOf params) ++ one .body body.tree)) :
    FormActs key setting here mode span form := by
  have inner := effects_functionParts below mode is acts takes
  have named := functionName_comm below is key
    (if role == .declaration then .function else .functionName)
  subst is
  have own : Station.effects
      ⟨here, ⟨span, .function role id params body isAsync generator⟩, setting⟩
        = (Station.openings setting.around here
            (if role == .expression && id.isSome then [.functionName] else [])).map .opened
          ++ [.opened (⟨.function, here⟩ :: setting.aroundFunction here role id),
            .declared ⟨.function, here⟩ "arguments" none] := by
    cases role <;> cases id <;> rfl
  have fields : ∀ inside, fieldEffects key inside here
      (Form.function role id params body isAsync generator).fields
        = fieldEffects key inside here (.optional .id (id.map Ident.tree))
          ++ fieldEffects key inside here
            (many .params (treesOf params) ++ one .body body.tree) := by
    simp [Form.fields]
  rw [FormActs, treeEffects_tree key setting here span fun _ => rfl, own, fields, ← inner,
    pick_append, List.append_assoc, ← List.append_assoc (pick key [_, _]), ← named, arrangement,
    effects_inScopeIf, effects_append, regionsAfter_nameEvents, effects_inScope, effects_declare,
    pick_append, pick_append, List.append_assoc]
  exact congrArg₂ _ rfl (congrArg₂ _ rfl (pick_append key [_, _] _))

end Functions

section Classes

variable {role : Role} {decorators : List Node} {id : Option Ident} {superClass : Option Node}
  {body : Node} (is : form = .classDefinition role decorators id superClass body)

include is

omit below in
theorem fieldEffects_className (setting : Setting) (here : Path) (key : Key) :
    fieldEffects key (setting.part form here) here (.optional .id (id.map Ident.tree))
      = pick key (effects setting.around
          (if role == .declaration then nameEvents here .classDeclaration id else []))
        ++ pick key (effects (⟨.classBody, here⟩ :: setting.around)
          (nameEvents here .className id)) := by
  have bound : (setting.part form here .id).binds
      = (if role == .declaration then [Region.innermost setting.around] else [])
        ++ [⟨.classBody, here⟩] := by
    subst is
    rfl
  rw [fieldEffects_ident?, bound]
  cases id <;> cases role <;> simp [Region.innermost]

/-- Nothing in what a class extends is declared in the class, so it makes no difference which
of the two comes first. -/
theorem className_comm (key : Key) :
    pick key (effects (⟨.classBody, here⟩ :: setting.around) (nameEvents here .className id))
        ++ fieldEffects key (setting.part form here) here
          (.optional .superClass (treeOf? superClass))
      = fieldEffects key (setting.part form here) here
          (.optional .superClass (treeOf? superClass))
        ++ pick key (effects (⟨.classBody, here⟩ :: setting.around)
          (nameEvents here .className id)) := by
  have apart : key = .region ⟨.classBody, here⟩ → fieldEffects key (setting.part form here) here
      (.optional .superClass (treeOf? superClass)) = [] := by
    rintro rfl
    cases superClass with
    | none => exact fieldEffects_of_children_nil _ _ _ rfl
    | some node =>
      refine (fieldEffects_one ..).trans
        (treeEffects_elsewhere _ _ node.isView_tree ?_ (by simp [Region.global]) ?_)
      · obtain ⟨same, free⟩ : (setting.part form here .superClass).around = setting.around
            ∧ (setting.part form here .superClass).binds = [] := by
          subst is
          exact ⟨rfl, rfl⟩
        rw [Setting.regions, same, free, List.append_nil]
        exact below.not_mem .classBody
      · exact fun inner => absurd inner.length_le (by simp [Path.child])
  cases id with
  | none => simp
  | some id =>
    have moved := only_declared_comm id.name (some ⟨here.child .id, id⟩) apart
    simpa [Region.innermost] using moved

/-- The name of a class is declared around it before what it extends is visited, and inside it
after that; the scope is opened in between. -/
theorem formActs_classDefinition (acts : PartsAct key form.fields) :
    FormActs key setting here mode span form := by
  have later := className_comm below is key
  have names := fieldEffects_className is setting here key
  subst is
  simp only [Form.fields, partsAct_append] at acts
  have decorated := effects_partEvents below mode
    (.classDefinition role decorators id superClass body) acts.1.1.1
    ((Fields.all_treesOf ..).2 fun _ _ => rfl) setting.around
    ((Fields.all_treesOf ..).2 fun _ _ => rfl)
  have extended := effects_partEvents below mode
    (.classDefinition role decorators id superClass body) acts.1.2
    ((Fields.all_treeOf? ..).2 fun _ _ => rfl) setting.around
    ((Fields.all_treeOf? ..).2 fun _ _ => rfl)
  have filled := effects_partEvents below mode (.classDefinition role decorators id superClass body)
    acts.2 ((Fields.all_one ..).2 rfl)
    (⟨.classBody, here⟩ :: setting.around) ((Fields.all_one ..).2 rfl)
  have stillName : regionsAfter setting.around
      (if role == .declaration then nameEvents here .classDeclaration id else [])
        = setting.around := regionsAfter_ite _ _ (regionsAfter_nameEvents ..)
  have own : Station.effects
      ⟨here, ⟨span, .classDefinition role decorators id superClass body⟩, setting⟩
        = [.opened (⟨.classBody, here⟩ :: setting.around)] := rfl
  rw [FormActs, treeEffects_tree key setting here span fun _ => rfl, own]
  simp only [arrangement, effects_append, regionsAfter_append, regionsAfter_partEvents, stillName,
    effects_inScope, regionsAfter_nameEvents, pick_append, pick_cons, pick_nil, List.append_nil,
    decorated, extended, filled, Form.fields, fieldEffects_append, names]
  generalize outerName : pick key (effects setting.around
    (if role == .declaration then nameEvents here .classDeclaration id else [])) = before
  generalize pick key (effects (⟨.classBody, here⟩ :: setting.around)
    (nameEvents here .className id)) = after at later ⊢
  generalize fieldEffects key _ here (many .decorators _) = first at decorated ⊢
  generalize fieldEffects key _ here (.optional .superClass _) = super at extended later ⊢
  -- Events open the scope after what the class extends, stations before everything else.
  have opened : (Effect.opened (⟨.classBody, here⟩ :: setting.around)).only key
        ++ (first ++ before ++ super)
      = (first ++ before ++ super)
        ++ (Effect.opened (⟨.classBody, here⟩ :: setting.around)).only key := by
    refine only_opened_comm _ fun effect member => ?_
    rw [← decorated, ← outerName, ← extended, ← pick_append, ← pick_append] at member
    exact key_of_mem_pick member
  rw [← List.append_assoc _ _ (after ++ _), ← opened]
  simp only [List.append_assoc]
  rw [← List.append_assoc after, later, List.append_assoc]

end Classes

include acts in
/-- **The events of a form do what its stations do**, if those of its parts do. -/
theorem formActs (shaped : form.Shaped) (suits : setting.Suits ⟨span, form⟩ mode) :
    FormActs key setting here mode span form := by
  have takes := takes_parts suits shaped key here
  cases form with
  | identifier => exact formActs_identifier mode span rfl suits
  | importDeclaration => exact formActs_importDeclaration mode span shaped rfl
  | function =>
    simp only [Form.fields, partsAct_append, Fields.all_append, Fields.all_treesOf,
      Fields.all_one] at acts takes
    refine formActs_function below mode span rfl
      ((partsAct_append ..).2 ⟨acts.1.1.1.2, acts.1.1.2⟩) ?_
    simp only [Setting.TakesParts, Fields.all_append, Fields.all_treesOf, Fields.all_one]
    exact ⟨fun node member => takes.1.1.1.2 node member rfl, takes.1.1.2 rfl⟩
  | classDefinition => exact formActs_classDefinition below mode span rfl acts
  | forInStatement =>
    exact formActs_forEach below mode span acts (fun child member => takes child member rfl)
      (.inl rfl)
  | forOfStatement =>
    exact formActs_forEach below mode span acts (fun child member => takes child member rfl)
      (.inr rfl)
  | switchStatement =>
    exact formActs_switchStatement below mode span acts
      (fun child member => takes child member rfl) rfl
  | exportNamed declaration specifiers source =>
    refine formActs_of_scopeIf below mode span acts false .block
      (fun child member => takes child member rfl) (fun _ => rfl) rfl rfl (fun _ => rfl) rfl ?_
    cases declaration <;> cases source <;> simp
  | exportDefault =>
    exact formActs_of_scopeIf below mode span acts false .block
      (fun child member => takes child member rfl) (fun _ => rfl) rfl rfl (fun _ => rfl) rfl
      (effects_map_exported ..)
  | program =>
    exact formActs_of_scopeIf below mode span acts true .module
      (fun child member => takes child member rfl) (fun _ => rfl) rfl rfl (fun _ => rfl)
      (List.append_nil _).symm rfl
  | arrowFunction =>
    exact formActs_of_scopeIf below mode span acts true .function
      (fun child member => takes child member rfl) (fun _ => rfl) rfl rfl (fun _ => rfl)
      (List.append_nil _).symm rfl
  | catchClause =>
    exact formActs_of_scopeIf below mode span acts true .catching
      (fun child member => takes child member rfl) (fun _ => rfl) rfl rfl (fun _ => rfl)
      (List.append_nil _).symm rfl
  | forStatement init =>
    exact formActs_of_scopeIf below mode span acts (init.any isLoopLocal) .loop
      (fun child member => takes child member rfl) (fun _ => rfl) rfl rfl (fun _ => rfl)
      (List.append_nil _).symm rfl
  | block =>
    -- the body of a function is in the scope of the function and opens none of its own
    exact formActs_of_scopeIf below mode span acts (!setting.isBody) .block
      (fun child member => takes child member rfl) (fun _ => rfl) rfl
      (by cases isBody : setting.isBody <;> rfl) (fun _ => rfl) (List.append_nil _).symm rfl
  | _ =>
    exact formActs_of_scopeIf below mode span acts false .block
      (fun child member => takes child member rfl) (fun _ => rfl) rfl rfl (fun _ => rfl)
      (List.append_nil _).symm rfl

end Forms

/-- **The events of a shaped node do what its stations do.** -/
theorem acts (key : Key) {node : Node} (shaped : node.Shaped) : Acts key node := by
  have views := Tree.view_induction (motive := fun tree => tree.node.Shaped → Acts key tree.node)
    fun span form parts => ?_
  · simpa using views node.tree node.isView_tree (by simpa using shaped)
  rw [Node.node_tree]
  intro shaped setting place mode below suits
  obtain ⟨built, admits⟩ := (Node.shaped_iff span form).1 shaped
  have act : PartsAct key form.fields := by
    exact fun child member =>
      ⟨form.allViews_fields child member, parts child member (admits child member).2⟩
  rw [events_visited_eq, suits.omits, if_neg Bool.false_ne_true]
  exact formActs below mode span act ⟨built, fun child member => (admits child member).1⟩ suits

end TemplateLint.Scope
