import TemplateLint.Proofs.Scope.Balance
import TemplateLint.Proofs.Syntax.Shape

/-!
# Where the parts of a program stand

Which regions are around a part of a program, and in which of them its identifiers are declared,
is a matter of the forms from the root down to it (`Setting.part`). The stations of a program are
its nodes in their settings, in the order in which they are visited. What they do is compared to
other effects for one region at a time (`pick`), because the name of a class is declared around
the class and in it at different times.
-/

namespace TemplateLint.Scope

open TemplateLint.Syntax
open TemplateLint.Syntax.Fields (one optional many sparse text texts flag literal treeOf)

/-! ## Settings -/

/-- Where a part of a program stands. -/
structure Setting where
  around : List Region
  binds : List Region
  isBody : Bool
  deriving DecidableEq, Repr

/-- The scopes that a form opens, innermost first. A block that is the body of a function opens
none of its own, and a loop opens one only for a head that declares variables of its own. -/
def scopeKinds (isBody : Bool) : Form → List ScopeKind
  | .program _ => [.module]
  | .function .expression (some _) .. => [.function, .functionName]
  | .function .. | .arrowFunction .. => [.function]
  | .classDefinition .. => [.classBody]
  | .block _ => if isBody then [] else [.block]
  | .forStatement init .. => if init.any isLoopLocal then [.loop] else []
  | .forInStatement left .. | .forOfStatement left .. => if isLoopLocal left then [.loop] else []
  | .switchStatement .. => [.switch]
  | .catchClause .. => [.catching]
  | _ => []

/-- The scopes of a node that a field of it lies in. -/
def scopeKindsAround (isBody : Bool) (form : Form) (field : Field) : List ScopeKind :=
  match form with
  -- The name of a function is outside the function itself.
  | .function .. =>
    if field = .id then (scopeKinds isBody form).tail else scopeKinds isBody form
  | .classDefinition .. => if field = .body then scopeKinds isBody form else []
  | .switchStatement .. => if field = .cases then scopeKinds isBody form else []
  | _ => scopeKinds isBody form

namespace Setting

/-- The setting of a whole program. -/
def whole : Setting := ⟨[], [], false⟩

variable (setting : Setting) (form : Form) (here : Path)

def aroundPart (field : Field) : List Region :=
  (scopeKindsAround setting.isBody form field).map (⟨·, here⟩) ++ setting.around

/-- The regions in which the identifiers bound by the part in a field are declared. Parameters,
names of functions and classes, and the targets of a declaration belong to the innermost region
around them, except that `var` and imports go to the nearest region that takes hoisted
variables. The name of a class is declared in the class, too. Patterns pass on what they are
bound to. -/
def boundPart (field : Field) : List Region :=
  let around := setting.aroundPart form here field
  match form with
  | .variableDeclaration _ kind => [Region.target around (kind == "var")]
  | .importDeclaration .. => if field = .specifiers then [Region.hoisting around] else []
  | .function .. => if field = .id ∨ field = .params then [Region.innermost around] else []
  | .arrowFunction .. => if field = .params then [Region.innermost around] else []
  | .catchClause .. => if field = .param then [Region.innermost around] else []
  | .classDefinition role .. =>
    if field = .id then
      (if role == .declaration then [Region.innermost around] else []) ++ [⟨.classBody, here⟩]
    else []
  | .variableDeclarator .. => if field = .id then setting.binds else []
  | .importSpecifier .. | .importDefault _ | .importNamespace _ =>
    if field = .binding then setting.binds else []
  | .arrayPattern _ | .objectPattern _ | .restElement _ => setting.binds
  | .assignmentPattern .. => if field = .left then setting.binds else []
  | .property .. => if field = .value then setting.binds else []
  | _ => []

/-- The setting of the parts in a field. -/
def part (field : Field) : Setting where
  around := setting.aroundPart form here field
  binds := setting.boundPart form here field
  isBody :=
    match form with
    | .function .. | .arrowFunction .. => field = .body
    | _ => false

end Setting

/-! ## Stations -/

/-- A node of a program with its place and its setting. -/
structure Station where
  place : Path
  node : Node
  setting : Setting

/-- The order in which the parts of a form are visited: a loop over keys or elements comes to
its target after what it goes through. -/
def arrange {α : Type} : Form → List α → List α
  | .forInStatement .., left :: right :: rest => right :: left :: rest
  | .forOfStatement .., left :: right :: rest => right :: left :: rest
  | _, parts => parts

mutual

/-- The nodes of a tree at a place, in the order in which they are visited. -/
def stations (setting : Setting) (here : Path) : Tree → List Station
  | .mk node _ children =>
    ⟨here, node, setting⟩
      :: (arrange node.form (childStations (setting.part node.form here) here children)).flatten

def childStations (inside : Field → Setting) (here : Path) :
    List (Step × Tree) → List (List Station)
  | [] => []
  | (step, tree) :: rest =>
    stations (inside step.field) (step :: here) tree :: childStations inside here rest

end

theorem arrange_perm {α : Type} (form : Form) (parts : List α) :
    (arrange form parts).Perm parts := by
  unfold arrange
  split
  · exact .swap ..
  · exact .swap ..
  · exact .refl _

/-! ## Settings by places -/

/-- Where the node at a place below a tree stands, if the tree itself stands at `here`. -/
def settingAt (setting : Setting) (here : Path) (tree : Tree) : Path → Setting
  | [] => setting
  | step :: outer =>
    match tree.nodeAt? outer with
    | none => settingAt setting here tree outer
    | some node => (settingAt setting here tree outer).part node.form (outer ++ here) step.field

theorem settingAt_concat (setting : Setting) (here : Path) {tree child : Tree} {step : Step}
    (found : tree.child? step = some child) (rest : Path) :
    settingAt setting here tree (rest ++ [step])
      = settingAt (setting.part tree.node.form here step.field) (step :: here) child rest := by
  induction rest with
  | nil => rfl
  | cons last rest ih =>
    have same : tree.nodeAt? (rest ++ [step]) = child.nodeAt? rest := by
      rw [Tree.nodeAt?, Tree.at?_concat, found, Option.bind_some, Tree.nodeAt?]
    rw [List.cons_append, settingAt, settingAt, same, ih, List.append_assoc, List.singleton_append]

theorem mem_childStations {inside : Field → Setting} {here : Path}
    {children : List (Step × Tree)} {station : Station} :
    station ∈ (childStations inside here children).flatten
      ↔ ∃ child ∈ children,
        station ∈ stations (inside child.1.field) (child.1 :: here) child.2 := by
  induction children with
  | nil => simp [childStations]
  | cons child rest ih => simp [childStations, ih]

theorem mem_stations_iff : ∀ tree : Tree, tree.IsView → ∀ (setting : Setting) (here : Path)
    (station : Station), station ∈ stations setting here tree
      ↔ ∃ rest, station.place = rest ++ here ∧ tree.nodeAt? rest = some station.node
        ∧ station.setting = settingAt setting here tree rest := by
  refine Tree.view_induction fun span form parts => ?_
  intro setting here station
  have view := Node.isView_tree ⟨span, form⟩
  cases whole : Node.tree ⟨span, form⟩ with
  | mk node layout children =>
    rw [whole] at parts view
    rw [stations, List.mem_cons, ((arrange_perm node.form _).flatten).mem_iff, mem_childStations]
    constructor
    · rintro (rfl | ⟨⟨step, child⟩, listed, inside⟩)
      · exact ⟨[], rfl, rfl, rfl⟩
      · obtain ⟨rest, placed, found, stands⟩ := (parts _ listed _ _ _).1 inside
        have below := (Tree.child?_eq_some_iff view step child).2 listed
        refine ⟨rest ++ [step], by simp [placed], ?_, ?_⟩
        · rw [Tree.nodeAt?, Tree.at?_concat, below]
          exact found
        · rw [settingAt_concat setting here below]
          exact stands
    · rintro ⟨rest, placed, found, stands⟩
      cases rest using List.reverseRecOn with
      | nil =>
        obtain rfl := Option.some.inj found
        obtain ⟨place, node, setting⟩ := station
        obtain rfl : place = here := placed
        obtain rfl : setting = _ := stands
        exact .inl rfl
      | append_singleton rest step =>
        rw [Tree.nodeAt?, Tree.at?_concat] at found
        obtain ⟨below, foundBelow, holds⟩ := Option.map_eq_some_iff.1 found
        obtain ⟨child, foundChild, inside⟩ := Option.bind_eq_some_iff.1 foundBelow
        have listed := (Tree.child?_eq_some_iff view step child).1 foundChild
        rw [settingAt_concat setting here foundChild] at stands
        refine .inr ⟨_, listed, (parts _ listed _ _ _).2 ⟨rest, by simp [placed], ?_, stands⟩⟩
        rw [Tree.nodeAt?, inside, Option.map_some, holds]

theorem nodup_childStations {inside : Field → Setting} {here : Path} {children : List (Step × Tree)}
    (views : ∀ child ∈ children, child.2.IsView) (distinct : (children.map Prod.fst).Nodup)
    (each : ∀ child ∈ children, ∀ setting here,
      ((stations setting here child.2).map Station.place).Nodup) :
    ((childStations inside here children).flatten.map Station.place).Nodup := by
  induction children with
  | nil => simp [childStations]
  | cons child rest ih =>
    obtain ⟨view, views⟩ := List.forall_mem_cons.1 views
    obtain ⟨fresh, distinct⟩ := List.nodup_cons.1 distinct
    obtain ⟨first, each⟩ := List.forall_mem_cons.1 each
    rw [childStations, List.flatten_cons, List.map_append]
    refine List.nodup_append.2 ⟨first _ _, ih views distinct each, ?_⟩
    intro place inFirst place' inRest same
    subst same
    obtain ⟨station, listed, rfl⟩ := List.mem_map.1 inFirst
    obtain ⟨other, listedOther, same⟩ := List.mem_map.1 inRest
    obtain ⟨sibling, member, inside⟩ := mem_childStations.1 listedOther
    obtain ⟨path, placed, _⟩ := (mem_stations_iff _ view _ _ _).1 listed
    obtain ⟨path', placed', _⟩ := (mem_stations_iff _ (views sibling member) _ _ _).1 inside
    -- Both places end in the step to a child of the tree, and steps are distinct.
    have equal : (path' ++ [sibling.1]) ++ here = (path ++ [child.1]) ++ here := by
      simpa [placed, placed'] using same
    have steps : sibling.1 = child.1 := by
      simpa using congrArg List.getLast? (List.append_cancel_right equal)
    exact fresh (steps ▸ List.mem_map_of_mem member)

theorem nodup_stations : ∀ tree : Tree, tree.IsView → ∀ (setting : Setting) (here : Path),
    ((stations setting here tree).map Station.place).Nodup := by
  refine Tree.view_induction fun span form parts => ?_
  intro setting here
  have view := Node.isView_tree ⟨span, form⟩
  have views := isView_child view
  have distinct := Tree.nodup_steps view
  cases whole : Node.tree ⟨span, form⟩ with
  | mk node layout children =>
    rw [whole] at parts views distinct
    have order := ((arrange_perm node.form
      (childStations (setting.part node.form here) here children)).flatten).map Station.place
    rw [stations, List.map_cons, List.nodup_cons, order.nodup_iff, order.mem_iff]
    refine ⟨fun again => ?_, nodup_childStations views distinct parts⟩
    obtain ⟨station, listed, same⟩ := List.mem_map.1 again
    obtain ⟨child, member, inside⟩ := mem_childStations.1 listed
    obtain ⟨rest, placed, _⟩ := (mem_stations_iff _ (views child member) _ _ _).1 inside
    have again : here = rest ++ child.1 :: here := same.symm.trans placed
    have lengths := congrArg List.length again
    rw [List.length_append, List.length_cons] at lengths
    omega

/-! ## The regions of settings -/

namespace Setting

def regions (setting : Setting) : List Region := setting.around ++ setting.binds

theorem target_mem_or (around : List Region) (hoisted : Bool) :
    Region.target around hoisted ∈ around ∨ Region.target around hoisted = .global := by
  cases hoisted with
  | false =>
    cases around with
    | nil => exact .inr rfl
    | cons first rest => exact .inl (.head _)
  | true =>
    rw [Region.target, if_pos rfl, Region.hoisting]
    cases found : around.find? fun region => region.kind.hoists with
    | none => exact .inr rfl
    | some region => exact .inl (List.mem_of_find?_eq_some found)

theorem mem_regions_part {setting : Setting} {form : Form} {here : Path} {field : Field}
    {region : Region} (member : region ∈ (setting.part form here field).regions) :
    region ∈ setting.regions ∨ region = .global ∨ region.block = here := by
  have outer : ∀ region ∈ setting.aroundPart form here field,
      region ∈ setting.regions ∨ region = .global ∨ region.block = here := by
    intro region member
    rcases List.mem_append.1 member with new | old
    · obtain ⟨kind, _, rfl⟩ := List.mem_map.1 new
      exact .inr (.inr rfl)
    · exact .inl (List.mem_append_left _ old)
  have targets : ∀ hoisted, region = Region.target (setting.aroundPart form here field) hoisted →
      region ∈ setting.regions ∨ region = .global ∨ region.block = here := by
    intro hoisted same
    rcases target_mem_or (setting.aroundPart form here field) hoisted with listed | global
    · exact same ▸ outer _ listed
    · exact .inr (.inl (same.trans global))
  have inherited : region ∈ setting.binds →
      region ∈ setting.regions ∨ region = .global ∨ region.block = here :=
    fun bound => .inl (List.mem_append_right _ bound)
  rcases List.mem_append.1 member with around | bound
  · exact outer region around
  -- What a form binds its parts to is a target around them, inherited, or the class itself.
  · simp only [part, boundPart] at bound
    have := targets false
    have := targets true
    simp only [Region.target] at *
    split at bound <;> grind

end Setting

theorem mem_regions_settingAt {setting : Setting} {here : Path} {tree : Tree} {rest : Path}
    {region : Region} (member : region ∈ (settingAt setting here tree rest).regions) :
    region ∈ setting.regions ∨ region = .global ∨ here <:+ region.block := by
  induction rest with
  | nil => exact .inl member
  | cons step outer ih =>
    rw [settingAt] at member
    split at member
    · exact ih member
    · rcases Setting.mem_regions_part member with old | global | opened
      · exact ih old
      · exact .inr (.inl global)
      · exact .inr (.inr (opened ▸ List.suffix_append outer here))

namespace Station

/-- The stacks of regions that a node opens, the outermost first. -/
def openings (around : List Region) (here : Path) : List ScopeKind → List (List Region)
  | [] => []
  | kind :: outer =>
    openings around here outer ++ [(kind :: outer).map (⟨·, here⟩) ++ around]

def opens (station : Station) : List (List Region) :=
  openings station.setting.around station.place
    (scopeKinds station.setting.isBody station.node.form)

/-- The names that a node declares by itself. Functions other than arrow functions have their
own `arguments`. -/
def declares (station : Station) : List Effect :=
  match station.node with
  | ⟨span, .identifier name⟩ => station.setting.binds.map fun region =>
    .declared region name (some ⟨station.place, ⟨span, name⟩⟩)
  | ⟨_, .function ..⟩ => [.declared ⟨.function, station.place⟩ "arguments" none]
  | _ => []

/-- What a node does to the table of scopes, apart from its parts. -/
def effects (station : Station) : List Effect :=
  station.opens.map .opened ++ station.declares

end Station

/-! ## Effects by what they are about -/

/-- What an effect is about. -/
inductive Key where
  | stack (stack : List Region)
  | region (region : Region)
  deriving DecidableEq, Repr

def Effect.key : Effect → Key
  | .opened stack => .stack stack
  | .declared region .. => .region region

/-- The effects that concern one region or one stack of regions. -/
def pick (key : Key) (done : List Effect) : List Effect :=
  done.filter fun effect => effect.key = key

def Effect.only (key : Key) (effect : Effect) : List Effect :=
  if effect.key = key then [effect] else []

section Pick

variable (key : Key)

@[simp] theorem pick_nil : pick key [] = [] := rfl

@[simp] theorem pick_cons (effect : Effect) (rest : List Effect) :
    pick key (effect :: rest) = effect.only key ++ pick key rest := by
  by_cases same : effect.key = key <;> simp [pick, Effect.only, same]

@[simp] theorem pick_append (first second : List Effect) :
    pick key (first ++ second) = pick key first ++ pick key second :=
  List.filter_append ..

end Pick

section Trees

variable (key : Key) (setting : Setting) (inside : Field → Setting) (here : Path) (field : Field)

/-- The effects of the stations of a tree that a key picks. -/
def treeEffects (tree : Tree) : List Effect :=
  pick key ((stations setting here tree).flatMap Station.effects)

def fieldEffects (fields : Fields) : List Effect :=
  pick key ((childStations inside here fields.children).flatten.flatMap Station.effects)

theorem childStations_append (first second : List (Step × Tree)) :
    childStations inside here (first ++ second)
      = childStations inside here first ++ childStations inside here second := by
  induction first with
  | nil => simp [childStations]
  | cons child rest ih => simp [childStations, ih]

@[simp] theorem fieldEffects_append (first second : Fields) :
    fieldEffects key inside here (first ++ second)
      = fieldEffects key inside here first ++ fieldEffects key inside here second := by
  have children : (first ++ second).children = first.children ++ second.children := rfl
  simp [fieldEffects, children, childStations_append]

theorem fieldEffects_of_children_nil {fields : Fields} (none : fields.children = []) :
    fieldEffects key inside here fields = [] := by
  rw [fieldEffects, none, childStations]
  rfl

@[simp] theorem fieldEffects_empty : fieldEffects key inside here .empty = [] :=
  fieldEffects_of_children_nil _ _ _ rfl

@[simp] theorem fieldEffects_text (value : String) :
    fieldEffects key inside here (text field value) = [] :=
  fieldEffects_of_children_nil _ _ _ rfl

@[simp] theorem fieldEffects_texts (values : List String) :
    fieldEffects key inside here (texts field values) = [] :=
  fieldEffects_of_children_nil _ _ _ rfl

@[simp] theorem fieldEffects_flag (value : Bool) :
    fieldEffects key inside here (flag field value) = [] :=
  fieldEffects_of_children_nil _ _ _ rfl

@[simp] theorem fieldEffects_literal (value : LiteralValue) :
    fieldEffects key inside here (literal field value) = [] :=
  fieldEffects_of_children_nil _ _ _ rfl

@[simp] theorem fieldEffects_one (tree : Tree) :
    fieldEffects key inside here (one field tree)
      = treeEffects key (inside field) (here.child field) tree := by
  simp [fieldEffects, one, childStations, treeEffects, Path.child]

theorem fieldEffects_eq_flatMap (fields : Fields) :
    fieldEffects key inside here fields = fields.children.flatMap fun child =>
      treeEffects key (inside child.1.field) (child.1 :: here) child.2 := by
  rw [fieldEffects]
  induction fields.children with
  | nil => simp [childStations]
  | cons child rest ih => simp [childStations, ih, treeEffects]

theorem stations_tree (span : Span) (form : Form) :
    stations setting here (Node.tree ⟨span, form⟩) = ⟨here, ⟨span, form⟩, setting⟩
      :: (arrange form
        (childStations (setting.part form here) here form.fields.children)).flatten := by
  rw [Node.tree, treeOf, stations]
  rfl

theorem treeEffects_tree (span : Span) {form : Form}
    (still : ∀ parts : List (List Station), arrange form parts = parts) :
    treeEffects key setting here (Node.tree ⟨span, form⟩)
      = pick key (Station.effects ⟨here, ⟨span, form⟩, setting⟩)
        ++ fieldEffects key (setting.part form here) here form.fields := by
  rw [treeEffects, stations_tree, still, List.flatMap_cons, pick_append, fieldEffects]

theorem treeEffects_ident (id : Ident) :
    treeEffects key setting here id.tree
      = pick key (setting.binds.map fun region => .declared region id.name (some ⟨here, id⟩)) := by
  have same : id.tree = Node.tree ⟨id.span, .identifier id.name⟩ := id.isView_tree
  rw [same, treeEffects_tree key setting here id.span fun _ => rfl, Form.fields, fieldEffects_text,
    List.append_nil]
  rfl

theorem region_of_mem_declares {station : Station} {region : Region} {name : String}
    {definition : Option Occurrence}
    (member : .declared region name definition ∈ station.declares) :
    region ∈ station.setting.regions ∨ region.block = station.place := by
  obtain ⟨place, ⟨span, form⟩, setting⟩ := station
  cases form with
  | identifier name =>
    obtain ⟨bound, listed, same⟩ := List.mem_map.1 member
    cases same
    exact .inl (List.mem_append_right _ listed)
  | function =>
    cases List.mem_singleton.1 member
    exact .inr rfl
  | _ => cases member

theorem treeEffects_elsewhere {region : Region} {tree : Tree} (view : tree.IsView)
    (outside : region ∉ setting.regions) (proper : region ≠ .global)
    (apart : ¬ here <:+ region.block) :
    treeEffects (.region region) setting here tree = [] := by
  refine List.filter_eq_nil_iff.2 fun effect member => ?_
  obtain ⟨station, listed, done⟩ := List.mem_flatMap.1 member
  obtain ⟨rest, placed, _, stands⟩ := (mem_stations_iff _ view _ _ _).1 listed
  rw [decide_eq_true_eq]
  intro about
  rcases List.mem_append.1 done with opened | declared
  · obtain ⟨stack, _, rfl⟩ := List.mem_map.1 opened
    cases about
  · cases effect with
    | opened => cases about
    | declared target name definition =>
      obtain rfl : target = region := Key.region.inj about
      rcases region_of_mem_declares declared with known | own
      · rw [stands] at known
        rcases mem_regions_settingAt known with old | global | inner
        · exact outside old
        · exact proper global
        · exact apart inner
      · exact apart (own ▸ placed ▸ List.suffix_append rest here)

end Trees

end TemplateLint.Scope
