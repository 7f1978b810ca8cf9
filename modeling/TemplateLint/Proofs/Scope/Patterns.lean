import TemplateLint.Proofs.Scope.Confined
import TemplateLint.Proofs.Scope.Writes

/-!
# What patterns bind

A pattern binds identifiers, and has default values and computed keys in between that are evaluated
(`pieces`). The identifiers are those that `boundIdents` lists, and the events of a pattern go
through its pieces, whether it is declared or assigned to (`scopeEvents_eq_pieces`). So **to declare
a pattern, to assign to it and to list its identifiers agree** (`declared_as_listed`).
-/

namespace TemplateLint.Scope

open TemplateLint.Syntax
open TemplateLint.Syntax.Fields (one optional many sparse text texts flag literal treeOf)
open TemplateLint.Grammar (Match Reads sourceGrammar bindingTarget progressive_sourceGrammar
  ensures_body targets_bindingTarget)

/-! ## Pieces of patterns -/

/-- A piece of a pattern: an identifier that it binds, or a part that is evaluated. -/
inductive Piece where
  | bound (occurrence : Occurrence)
  | aside (place : Path) (node : Node)

namespace Piece

def occurrence? : Piece → Option Occurrence
  | .bound occurrence => some occurrence
  | .aside .. => none

/-- The piece that a node of a pattern is itself. -/
def own (here : Path) : Node → List Piece
  | ⟨span, .identifier name⟩ => [.bound ⟨here, ⟨span, name⟩⟩]
  | _ => []

end Piece

mutual

/-- The pieces of a pattern in the order of the text. -/
def treePieces (here : Path) : Tree → List Piece
  | .mk node _ children => Piece.own here node ++ childPieces node.form here children

def childPieces (form : Form) (here : Path) : List (Step × Tree) → List Piece
  | [] => []
  | (step, tree) :: rest =>
    (if form.passesOn step.field then treePieces (step :: here) tree
      else if isAside step.field form then [.aside (step :: here) tree.node]
      else []) ++ childPieces form here rest

end

/-- The pieces of a pattern, in source order. -/
def pieces (here : Path) (pattern : Node) : List Piece := treePieces here pattern.tree

/-- The identifiers that a pattern binds, with their places. -/
def boundIn (here : Path) (pattern : Node) : List Occurrence :=
  (pieces here pattern).filterMap Piece.occurrence?

def partPieces (form : Form) (here : Path) (child : Step × Tree) : List Piece :=
  if form.passesOn child.1.field then treePieces (child.1 :: here) child.2
  else if isAside child.1.field form then [.aside (child.1 :: here) child.2.node]
  else []

theorem childPieces_eq (form : Form) (here : Path) (children : List (Step × Tree)) :
    childPieces form here children = children.flatMap (partPieces form here) := by
  induction children with
  | nil => rw [childPieces, List.flatMap_nil]
  | cons child rest ih =>
    obtain ⟨step, tree⟩ := child
    rw [childPieces, ih, List.flatMap_cons]
    rfl

theorem treePieces_tree (here : Path) (span : Span) (form : Form) :
    treePieces here (Node.tree ⟨span, form⟩)
      = Piece.own here ⟨span, form⟩ ++ form.fields.children.flatMap (partPieces form here) := by
  rw [Node.tree, treeOf, treePieces, childPieces_eq]
  rfl

theorem mem_treePieces {here : Path} {span : Span} {form : Form} {piece : Piece} :
    piece ∈ treePieces here (Node.tree ⟨span, form⟩)
      ↔ piece ∈ Piece.own here ⟨span, form⟩
        ∨ ∃ child ∈ form.fields.children, piece ∈ partPieces form here child := by
  rw [treePieces_tree, List.mem_append, List.mem_flatMap]

theorem mem_partPieces {form : Form} {here : Path} {child : Step × Tree} {piece : Piece}
    (member : piece ∈ partPieces form here child) :
    form.passesOn child.1.field = true ∧ piece ∈ treePieces (child.1 :: here) child.2
      ∨ isAside child.1.field form = true ∧ piece = .aside (child.1 :: here) child.2.node := by
  unfold partPieces at member
  split at member
  · exact .inl ⟨‹_›, member⟩
  · split at member
    · exact .inr ⟨‹_›, List.mem_singleton.1 member⟩
    · cases member

theorem Piece.mem_own {here : Path} {node : Node} {piece : Piece}
    (member : piece ∈ Piece.own here node) :
    ∃ span name, node = ⟨span, .identifier name⟩ ∧ piece = .bound ⟨here, ⟨span, name⟩⟩ := by
  obtain ⟨span, form⟩ := node
  cases form with
  | identifier name => exact ⟨span, name, rfl, List.mem_singleton.1 member⟩
  | _ => cases member

/-! ## The identifiers of a pattern -/

theorem boundIdentsList_eq (field : Field) (nodes : List Node) :
    boundIdentsList nodes
      = (many field (treesOf nodes)).children.flatMap fun child => boundIdents child.2.node := by
  have listed : boundIdentsList nodes = nodes.flatMap boundIdents := by
    induction nodes with
    | nil => rfl
    | cons node rest ih => rw [boundIdentsList, ih, List.flatMap_cons]
  rw [listed, Fields.children_treesOf, List.flatMap_map]
  simp only [Node.node_tree]
  rw [← List.flatMap_map Prod.fst boundIdents, List.zipIdx_map_fst]

theorem boundIdentsSparse_eq (field : Field) (nodes : List (Option Node)) :
    boundIdentsSparse nodes
      = (sparse field (treesOf? nodes)).children.flatMap fun child => boundIdents child.2.node := by
  simp only [sparse, treesOf?_eq_map, List.zipIdx_map, List.filterMap_map]
  generalize 0 = first
  induction nodes generalizing first with
  | nil => rfl
  | cons node? rest ih =>
    have later := ih (first + 1)
    cases node? <;> simp_all [boundIdentsSparse, List.zipIdx_cons]

theorem boundIdents_eq (here : Path) (span : Span) (form : Form) :
    boundIdents ⟨span, form⟩
      = ((Piece.own here ⟨span, form⟩).filterMap Piece.occurrence?).map Occurrence.id
        ++ form.fields.children.flatMap fun child =>
          if form.passesOn child.1.field then boundIdents child.2.node else [] := by
  have appended : ∀ first second : Fields,
      (first ++ second).children = first.children ++ second.children := fun _ _ => rfl
  cases form with
  | identifier name => simp [boundIdents, Piece.own, Piece.occurrence?, Form.fields, text]
  | arrayPattern elements =>
    simp [boundIdents, Piece.own, Form.fields, Form.passesOn, boundIdentsSparse_eq .elements]
  | objectPattern properties =>
    simp [boundIdents, Piece.own, Form.fields, Form.passesOn, boundIdentsList_eq .properties]
  | restElement | assignmentPattern | property =>
    simp [boundIdents, Piece.own, Form.fields, Form.passesOn, appended, one, text, flag]
  | _ => simp [boundIdents, Piece.own, Form.passesOn]

theorem map_id_treePieces : ∀ tree : Tree, tree.IsView → ∀ here : Path,
    ((treePieces here tree).filterMap Piece.occurrence?).map Occurrence.id
      = boundIdents tree.node := by
  refine Tree.view_induction fun span form parts => ?_
  intro here
  rw [Node.node_tree, boundIdents_eq here, treePieces_tree, List.filterMap_append, List.map_append,
    List.filterMap_flatMap, List.map_flatMap]
  congr 1
  refine List.flatMap_congr fun child member => ?_
  rw [Node.tree] at parts
  unfold partPieces
  split
  · exact parts child member _
  · split <;> rfl

/-! ## Events of patterns -/

/-- What a piece of a pattern does when the pattern is visited. -/
def Piece.events (mode : Mode) : Piece → List Event
  | .bound occurrence => mode.identifier occurrence
  | .aside place node => scopeEvents .evaluate place node

theorem part_of_isBinding {span : Span} {form : Form} {mode : Mode}
    (binding : Node.isBinding ⟨span, form⟩ = true) (same : mode.inner = mode) :
    form.fields.All fun field _ => holdsBody form field = false ∧ mode.part form field
      = if form.passesOn field then .visited mode
        else if isAside field form then .visited .evaluate else .skipped := by
  cases form with
  | identifier => simp [Form.fields]
  | arrayPattern | objectPattern | restElement =>
    exact fun child _ => ⟨rfl, by simp [Mode.part, Form.passesOn, same]⟩
  | assignmentPattern => simp [Form.fields, holdsBody, Mode.part, Form.passesOn, isAside, same]
  | property _ _ _ computed =>
    simp [Form.fields, holdsBody, Mode.part, Form.passesOn, isAside, same, Visit.evaluatedIf]
  | _ => simp [Node.isBinding] at binding

theorem scopeEvents_eq_treePieces {mode : Mode} (same : mode.inner = mode) :
    ∀ tree : Tree, tree.IsView → tree.node.isBinding = true → ∀ here : Path,
      scopeEvents mode here tree.node = (treePieces here tree).flatMap (Piece.events mode) := by
  refine Tree.view_induction fun span form parts => ?_
  rw [Node.node_tree]
  intro binding here
  rw [Node.tree] at parts
  rw [scopeEvents_eq, formEvents_eq, treePieces_tree, List.flatMap_append, List.flatMap_assoc]
  have inner := Node.isBinding_part binding
  have met := part_of_isBinding binding same
  have below : partEvents mode form here form.fields = form.fields.children.flatMap fun child =>
      (partPieces form here child).flatMap (Piece.events mode) := by
    refine List.flatMap_congr fun child member => ?_
    obtain ⟨noBody, met⟩ := met child member
    rw [noBody, met]
    unfold partPieces
    split
    · rename_i passes
      exact parts child member (inner child member passes) _
    · split
      · exact (List.append_nil _).symm
      · rfl
  have pattern : isPatternPart form = true := by
    cases form <;> first | rfl | simp [Node.isBinding] at binding
  have omitted : mode.omits form = false := by simp [Mode.omits, pattern]
  rw [omitted, if_neg Bool.false_ne_true, ← below]
  cases form with
  | identifier name =>
    have none : partEvents mode (.identifier name) here (Form.identifier name).fields = [] := rfl
    rw [none, List.append_nil]
    exact (List.append_nil _).symm
  | arrayPattern | objectPattern | assignmentPattern | restElement | property => rfl
  | _ => simp [Node.isBinding] at binding

/-- The events of a pattern are those of its pieces, one after the other. -/
theorem scopeEvents_eq_pieces {mode : Mode} (same : mode.inner = mode) {pattern : Node}
    (binding : pattern.isBinding = true) (here : Path) :
    scopeEvents mode here pattern = (pieces here pattern).flatMap (Piece.events mode) := by
  have events := scopeEvents_eq_treePieces same pattern.tree pattern.isView_tree
  rw [Node.node_tree] at events
  exact events binding here

/-- How the identifiers of an assigned pattern are accessed: inside it they are written. -/
def Access.within (access : Access) (pattern : Node) : Access :=
  if pattern.identifier?.isSome then access else .write

theorem scopeEvents_assign {pattern : Node} (binding : pattern.isBinding = true) (access : Access)
    (here : Path) : scopeEvents (.assign access) here pattern
      = (pieces here pattern).flatMap (Piece.events (.assign (access.within pattern))) := by
  obtain ⟨span, form⟩ := pattern
  cases form with
  | identifier name =>
    simp [scopeEvents, formEvents, pieces, treePieces_tree, Piece.own, Piece.events, Form.fields,
      text, Access.within, Node.identifier?]
  | arrayPattern | objectPattern | assignmentPattern | restElement | property =>
    have inside : (Mode.assign .write).inner = .assign .write := rfl
    exact scopeEvents_eq_pieces inside binding here
  | _ => simp [Node.isBinding] at binding

/-- Defaults and computed keys of a tidy pattern cannot declare anything. -/
theorem closed_of_mem_treePieces : ∀ tree : Tree, tree.IsView → tree.node.Tidy →
    tree.node.isBinding = true → ∀ {here place : Path} {node : Node},
      .aside place node ∈ treePieces here tree → node.Tidy ∧ node.form.canDeclare = false := by
  refine Tree.view_induction fun span form parts => ?_
  rw [Node.node_tree]
  intro tidy binding here place node member
  rw [Node.tree] at parts
  obtain ⟨⟨-, confines⟩, tidies⟩ := (Node.tidy_iff span form).1 tidy
  rcases mem_treePieces.1 member with own | ⟨child, listed, inside⟩
  · obtain ⟨_, _, _, same⟩ := Piece.mem_own own
    cases same
  rcases mem_partPieces inside with ⟨passes, inside⟩ | ⟨-, same⟩
  · exact parts child listed (tidies child listed) (Node.isBinding_part binding child listed passes)
      inside
  · cases same
    refine ⟨tidies child listed, ?_⟩
    rw [← Bool.not_eq_true]
    intro declares
    have taken := confines child listed declares
    cases form with
    | arrayPattern | objectPattern | assignmentPattern | restElement | property => cases taken
    | identifier => cases listed
    | _ => simp [Node.isBinding] at binding

/-! ## Tables of patterns -/

/-- Some identifiers are declared in turn. -/
def declareAll (kind : VariableKind) (occurrences : List Occurrence) (known : List Variable) :
    List Variable :=
  occurrences.foldl (fun known occurrence =>
    declareVariable occurrence.id.name kind (some occurrence) known) known

/-- The definitions of the variable of a name, none without one. -/
def definitionsOf (name : String) (known : List Variable) : List Occurrence :=
  ((known.find? (·.name == name)).map Variable.definitions).getD []

theorem definitionsOf_declareVariable (other name : String) (kind : VariableKind)
    (definition : Option Occurrence) (known : List Variable) :
    definitionsOf other (declareVariable name kind definition known)
      = definitionsOf other known ++ if name == other then definition.toList else [] := by
  induction known with
  | nil => by_cases same : name = other <;> simp [declareVariable, definitionsOf, same]
  | cons binding rest ih =>
    by_cases own : binding.name = name
    · by_cases same : name = other <;> simp [declareVariable, definitionsOf, own, same]
    · by_cases same : binding.name = other
      · subst same
        simp [declareVariable, definitionsOf, own, Ne.symm own]
      · simpa [declareVariable, definitionsOf, own, same] using ih

/-- Each name gets the definitions that are declared with it, behind those it has. -/
theorem definitionsOf_declareAll (name : String) (kind : VariableKind)
    (occurrences : List Occurrence) (known : List Variable) :
    definitionsOf name (declareAll kind occurrences known)
      = definitionsOf name known ++ occurrences.filter (·.id.name == name) := by
  induction occurrences generalizing known with
  | nil => exact (List.append_nil _).symm
  | cons occurrence rest ih =>
    rw [declareAll, List.foldl_cons, ← declareAll, ih, definitionsOf_declareVariable,
      List.append_assoc, List.filter_cons]
    split <;> rfl

namespace Table

/-- The scope that a declaration goes to. -/
def target (table : Table) (hoisted : Bool) : Nat :=
  if hoisted then table.scopes.hoistTarget table.current else table.current

/-- Since an earlier table, identifiers have been declared in one of its scopes, and all else in its
scopes is as it was. -/
structure Binds (base : Table) (target : Nat) (kind : VariableKind) (done : List Occurrence)
    (table : Table) : Prop where
  formed : table.WellFormed
  current : table.current = base.current
  scopes : ∀ (number : Nat) (scope : LexicalScope), base.scopes[number]? = some scope →
    table.scopes[number]? = some
      (if number = target then { scope with locals := declareAll kind done scope.locals }
        else scope)

variable {base table : Table} {target : Nat} {kind : VariableKind} {done : List Occurrence}

theorem binds_self (formed : base.WellFormed) (target : Nat) (kind : VariableKind) :
    Binds base target kind [] base where
  formed := formed
  current := rfl
  scopes number scope found := by
    rw [found]
    split <;> rfl

namespace Binds

variable (binds : Binds base target kind done table)

include binds

theorem target_eq (formed : base.WellFormed) (hoisted : Bool) :
    table.target hoisted = base.target hoisted := by
  have chained : table.scopes.chain table.current = base.scopes.chain base.current := by
    have found := List.getElem?_eq_getElem formed.current
    rw [binds.current, Scopes.chain, Scopes.chain, binds.scopes _ _ found, found]
    by_cases same : base.current = target <;> simp [same]
  cases hoisted with
  | false => exact binds.current
  | true =>
    show Scopes.hoistTarget _ _ = Scopes.hoistTarget _ _
    rw [Scopes.hoistTarget, Scopes.hoistTarget, chained]
    congr 1
    have same : ∀ number ∈ base.scopes.chain base.current,
        ((table.scopes[number]?).map fun s => s.kind.hoists).getD true
          = ((base.scopes[number]?).map fun s => s.kind.hoists).getD true := by
      intro number member
      have found := List.getElem?_eq_getElem (formed.scopes.lt_of_mem_chain formed.current member)
      rw [binds.scopes _ _ found, found]
      by_cases same : number = target <;> simp [same]
    exact List.find?_congr same

theorem declare (formed : base.WellFormed) {hoisted : Bool} (goes : target = base.target hoisted)
    (occurrence : Occurrence) : Binds base target kind (done ++ [occurrence])
      (table.step (.declare hoisted occurrence.id.name kind (some occurrence))) where
  formed := wellFormed_step binds.formed _
  current := binds.current
  scopes number scope found := by
    have there :
        (if hoisted then table.scopes.hoistTarget table.current else table.current) = target :=
      (binds.target_eq formed hoisted).trans goes.symm
    rw [step, Scopes.getElem?_declare, there, binds.scopes number scope found, Option.map_some]
    by_cases same : number = target
    · simp [same, declareAll]
    · simp [same, Ne.symm same]

theorem refer (occurrence : Occurrence) (access : Access) :
    Binds base target kind done (table.step (.refer occurrence access)) :=
  ⟨wellFormed_step binds.formed _, binds.current, binds.scopes⟩

theorem evaluate {node : Node} (tidy : node.Tidy) (closed : node.form.canDeclare = false)
    (place : Path) :
    Binds base target kind done ((scopeEvents .evaluate place node).foldl step table) := by
  obtain ⟨current, kept⟩ := kept_of_evaluated binds.formed tidy closed place
  exact ⟨wellFormed_foldl_step binds.formed _, current.trans binds.current,
    fun number scope found => kept number _ (binds.scopes number scope found)⟩

end Binds

/-- The run over some pieces, from what each identifier among them does. -/
theorem Binds.foldl_pieces (binds : Binds base target kind done table) (mode : Mode)
    (new : Occurrence → List Occurrence)
    (own : ∀ {table done} (occurrence : Occurrence), Binds base target kind done table →
      Binds base target kind (done ++ new occurrence)
        ((mode.identifier occurrence).foldl step table))
    {list : List Piece}
    (closed : ∀ place node, .aside place node ∈ list → node.Tidy ∧ node.form.canDeclare = false) :
    Binds base target kind (done ++ (list.filterMap Piece.occurrence?).flatMap new)
      ((list.flatMap (Piece.events mode)).foldl step table) := by
  induction list generalizing table done with
  | nil => simpa using binds
  | cons piece rest ih =>
    have later := fun place node member => closed place node (.tail piece member)
    rw [List.flatMap_cons, List.foldl_append]
    cases piece with
    | bound occurrence =>
      have next := ih (own occurrence binds) later
      rwa [List.append_assoc] at next
    | aside place node =>
      obtain ⟨tidy, still⟩ := closed place node (.head rest)
      exact ih (binds.evaluate tidy still place) later

theorem exists_created (events : List Event) (table : Table) :
    ∃ created, (events.foldl step table).references = table.references ++ created
      ∧ created.map Reference.use = events.filterMap Event.reference? := by
  induction events generalizing table with
  | nil => exact ⟨[], (List.append_nil _).symm, rfl⟩
  | cons event rest ih =>
    obtain ⟨created, whole, uses⟩ := ih (table.step event)
    cases event with
    | refer occurrence access =>
      refine ⟨⟨occurrence, access, table.current⟩ :: created, ?_, congrArg _ uses⟩
      rw [List.foldl_cons, whole]
      exact List.append_assoc ..
    | _ => exact ⟨created, whole, uses⟩

end Table

/-- The references that a piece of a pattern makes, where identifiers are accessed as given. -/
def Piece.uses (access? : Option Access) : Piece → List (Occurrence × Access)
  | .bound occurrence => access?.toList.map (occurrence, ·)
  | .aside place node => (scopeEvents .evaluate place node).filterMap Event.reference?

theorem Piece.filterMap_events {mode : Mode} {access? : Option Access}
    (own : ∀ occurrence, (mode.identifier occurrence).filterMap Event.reference?
      = access?.toList.map (occurrence, ·)) (list : List Piece) :
    (list.flatMap (Piece.events mode)).filterMap Event.reference?
      = list.flatMap (Piece.uses access?) := by
  rw [List.filterMap_flatMap]
  refine List.flatMap_congr fun piece _ => ?_
  cases piece with
  | bound occurrence => exact own occurrence
  | aside => rfl

/-! ## Declaring, assigning and listing -/

section Listed

variable {pattern : Node} (target : pattern.Target) (here : Path)

include target

theorem closed_of_mem_pieces {place : Path} {node : Node}
    (member : .aside place node ∈ pieces here pattern) :
    node.Tidy ∧ node.form.canDeclare = false :=
  closed_of_mem_treePieces pattern.tree pattern.isView_tree
    ((Node.node_tree pattern).symm ▸ target.2) ((Node.node_tree pattern).symm ▸ target.1.2) member

theorem binds_declare {table : Table} (formed : table.WellFormed) (kind : VariableKind)
    (hoisted written : Bool) :
    table.Binds (table.target hoisted) kind (boundIn here pattern)
      ((scopeEvents (.declare kind hoisted written) here pattern).foldl Table.step table) := by
  have own : ∀ {now done} (occurrence : Occurrence),
      table.Binds (table.target hoisted) kind done now →
      table.Binds (table.target hoisted) kind (done ++ [occurrence])
        (((Mode.declare kind hoisted written).identifier occurrence).foldl Table.step now) := by
    intro now done occurrence binds
    have declared := binds.declare formed rfl occurrence
    cases written with
    | false => exact declared
    | true => exact declared.refer occurrence .initialWrite
  have whole := (Table.binds_self formed (table.target hoisted) kind).foldl_pieces _ ([·]) own
    fun _ _ => closed_of_mem_pieces target here
  rw [← scopeEvents_eq_pieces rfl target.1.2, List.flatMap_singleton',
    List.nil_append] at whole
  exact whole

theorem binds_assign {table : Table} (formed : table.WellFormed) (access : Access) :
    table.Binds table.current .implicit []
      ((scopeEvents (.assign access) here pattern).foldl Table.step table) := by
  rw [scopeEvents_assign target.1.2]
  have own : ∀ {now done} (occurrence : Occurrence), table.Binds table.current .implicit done now →
      table.Binds table.current .implicit (done ++ [])
        (((Mode.assign (access.within pattern)).identifier occurrence).foldl Table.step now) := by
    intro now done occurrence binds
    rw [List.append_nil]
    exact binds.refer occurrence _
  have whole := (Table.binds_self formed table.current .implicit).foldl_pieces _ (fun _ => []) own
    fun _ _ => closed_of_mem_pieces target here
  rwa [List.flatMap_eq_nil_iff.2 fun _ _ => rfl] at whole

end Listed

/-- **To declare a pattern, to assign to it and to list its identifiers agree.** The identifiers
that are declared are the listed ones, in the same order. They become definitions in the scope that
the declaration goes to: each name there has the definitions it had and then the listed identifiers
of that name. Nothing else changes there or in the other scopes. With a value each of them is
written. Assigned to, they are written in the same order. All other references
are those of default values and computed keys, in between. -/
theorem declared_as_listed {source : List Char} {offset : Nat} {result : Match SyntaxError Node}
    {pattern : Node}
    (reads : Reads sourceGrammar bindingTarget offset (source.drop offset) (some result))
    (accepted : result.value = .ok pattern) (here : Path) {table : Table}
    (formed : table.WellFormed) :
    (boundIn here pattern).map Occurrence.id = boundIdents pattern
      ∧ (∀ kind hoisted written, let after :=
          (scopeEvents (.declare kind hoisted written) here pattern).foldl Table.step table
        after.current = table.current
          ∧ (∀ (number : Nat) (scope : LexicalScope), table.scopes[number]? = some scope →
            after.scopes[number]? = some (if number = table.target hoisted then
              { scope with locals := declareAll kind (boundIn here pattern) scope.locals }
              else scope))
          ∧ (∃ known known',
            (table.scopes[table.target hoisted]?).map LexicalScope.locals = some known
              ∧ (after.scopes[table.target hoisted]?).map LexicalScope.locals = some known'
              ∧ ∀ name, definitionsOf name known'
                = definitionsOf name known ++ (boundIn here pattern).filter (·.id.name == name))
          ∧ ∃ created, after.references = table.references ++ created
            ∧ created.map Reference.use = (pieces here pattern).flatMap
              (Piece.uses (if written then some .initialWrite else none)))
      ∧ ∀ access, let after :=
          (scopeEvents (.assign access) here pattern).foldl Table.step table
        after.current = table.current
          ∧ (∀ (number : Nat) (scope : LexicalScope), table.scopes[number]? = some scope →
            after.scopes[number]? = some scope)
          ∧ ∃ created, after.references = table.references ++ created
            ∧ created.map Reference.use = (pieces here pattern).flatMap
              (Piece.uses (some (access.within pattern))) := by
  have target : pattern.Target :=
    reads.ensures progressive_sourceGrammar.filled ensures_body targets_bindingTarget accepted
  have binding := target.1.2
  refine ⟨?_, fun kind hoisted written => ?_, fun access => ?_⟩
  · exact (map_id_treePieces _ pattern.isView_tree here).trans
      (congrArg boundIdents (Node.node_tree pattern))
  · have binds := binds_declare target here formed kind hoisted written
    obtain ⟨created, whole, uses⟩ :=
      Table.exists_created (scopeEvents (.declare kind hoisted written) here pattern) table
    refine ⟨binds.current, binds.scopes, ?_, created, whole, uses.trans ?_⟩
    · have inside : table.target hoisted < table.scopes.length := by
        cases hoisted with
        | false => exact formed.current
        | true => exact formed.scopes.hoistTarget_lt formed.current
      have found := List.getElem?_eq_getElem inside
      refine ⟨_, _, congrArg _ found, congrArg _ (binds.scopes _ _ found), fun name => ?_⟩
      rw [if_pos rfl]
      exact definitionsOf_declareAll name kind _ _
    · rw [scopeEvents_eq_pieces rfl binding]
      exact Piece.filterMap_events (fun occurrence => by cases written <;> rfl) _
  · have binds := binds_assign target here formed access
    obtain ⟨created, whole, uses⟩ :=
      Table.exists_created (scopeEvents (.assign access) here pattern) table
    refine ⟨binds.current, fun number scope found => ?_, created, whole, uses.trans ?_⟩
    · rw [binds.scopes number scope found]
      split <;> rfl
    · rw [scopeEvents_assign binding]
      exact Piece.filterMap_events (fun occurrence => rfl) _

/-- In `[a, {[k]: b = c => d, ...e}, , ...f]` four identifiers are bound, and the key and the
default are evaluated in between. -/
theorem declared_as_listed_nested : ∃ source result pattern,
    Reads sourceGrammar bindingTarget 0 (List.drop 0 source) (some result)
      ∧ result.value = .ok pattern
      ∧ (boundIdents pattern).map Ident.name = ["a", "b", "e", "f"]
      ∧ (boundIn [] pattern).map Occurrence.id = boundIdents pattern
      ∧ ∃ created,
        ((scopeEvents (.declare (.declared "var") true true) [] pattern).foldl Table.step
          .empty).references = created
        ∧ created.map Reference.use
          = (pieces [] pattern).flatMap (Piece.uses (some .initialWrite))
        ∧ created.map (fun reference => (reference.name, reference.access))
          = [("a", .initialWrite), ("k", .read), ("b", .initialWrite), ("d", .read),
            ("e", .initialWrite), ("f", .initialWrite)] := by
  have run : ((sourceGrammar.read bindingTarget "[a, {[k]: b = c => d, ...e}, , ...f]".toList).any
      fun result => result.value.toOption.any fun pattern =>
        (boundIdents pattern).map Ident.name == ["a", "b", "e", "f"]
          && ((scopeEvents (.declare (.declared "var") true true) [] pattern).foldl Table.step
            .empty).references.map (fun reference => (reference.name, reference.access))
            == [("a", .initialWrite), ("k", .read), ("b", .initialWrite), ("d", .read),
              ("e", .initialWrite), ("f", .initialWrite)]) = true := by
    decide +kernel
  obtain ⟨result, evaluated, run⟩ := (Option.any_eq_true _ _).1 run
  obtain ⟨pattern, found, run⟩ := (Option.any_eq_true _ _).1 run
  simp only [Bool.and_eq_true, beq_iff_eq] at run
  have accepted : result.value = .ok pattern := by
    cases value : result.value with
    | error fault =>
      rw [value] at found
      cases found
    | ok other =>
      rw [value] at found
      exact congrArg _ (Option.some.inj found)
  have progress : bindingTarget.repeatsProgress = true := rfl
  have reads := (progressive_sourceGrammar.reads_iff progress
    "[a, {[k]: b = c => d, ...e}, , ...f]".toList (Nat.zero_le _) _).2 evaluated
  obtain ⟨listed, declared, -⟩ :=
    declared_as_listed reads accepted [] Table.wellFormed_empty
  obtain ⟨-, -, -, created, whole, uses⟩ := declared (.declared "var") true true
  refine ⟨_, result, pattern, reads, accepted, run.1, listed, created, whole, uses, ?_⟩
  rw [← run.2, whole]
  rfl

end TemplateLint.Scope
