import TemplateLint.Proofs.Scope.Agreement
import TemplateLint.Proofs.Grammar.Program

/-!
# The names that a program declares

**After the analysis of a shaped program the variables of its scopes are the declared names**
(`declaredBy_analyze`, `Scopes.DeclaredBy`). Events and stations have the same effects about each
region (`pick_programEvents`), regions of stations are distinct (`nodup_opened`), and tables record
the effects of their events.
-/

namespace TemplateLint.Scope

open TemplateLint.Syntax

variable {root : Node} {station : Station} {region : Region}

theorem Setting.below_whole : whole.Below [] := fun _ member => absurd member List.not_mem_nil

/-! ## Binding identifiers -/

/-- The stations of a program, in the order of the text. -/
def programStations (root : Node) : List Station := stations .whole [] root.tree

/-- The setting of a place in a program. -/
def programSetting (root : Node) (place : Path) : Setting := settingAt .whole [] root.tree place

/-- The identifier at a station, if it is bound in the region. -/
def Station.binder? (region : Region) (station : Station) : Option Occurrence :=
  match station.node with
  | ⟨span, .identifier name⟩ =>
    if region ∈ station.setting.binds then some ⟨station.place, ⟨span, name⟩⟩ else none
  | _ => none

/-- The identifiers that are bound in a region, in the order of the text. -/
def binders (root : Node) (region : Region) : List Occurrence :=
  (programStations root).filterMap (Station.binder? region)

/-- The region of a function that has a variable `arguments`. -/
def hasArguments (root : Node) (region : Region) : Bool :=
  region.kind == .function
    && (root.tree.nodeAt? region.block).any (· matches ⟨_, .function ..⟩)

theorem mem_programStations :
    station ∈ programStations root ↔ root.tree.nodeAt? station.place = some station.node
      ∧ station.setting = programSetting root station.place := by
  rw [programStations, mem_stations_iff _ root.isView_tree]
  constructor
  · rintro ⟨rest, placed, found, stands⟩
    rw [List.append_nil] at placed
    subst placed
    exact ⟨found, stands⟩
  · rintro ⟨found, stands⟩
    exact ⟨station.place, (List.append_nil _).symm, found, stands⟩

theorem Station.binder?_eq_some {occurrence : Occurrence} :
    station.binder? region = some occurrence
      ↔ station.place = occurrence.place ∧ station.node = occurrence.id.node
        ∧ region ∈ station.setting.binds := by
  obtain ⟨place, ⟨span, form⟩, setting⟩ := station
  obtain ⟨place', ⟨span', name'⟩⟩ := occurrence
  cases form with
  | identifier name =>
    simp only [Station.binder?, Ident.node]
    split <;> simp_all
  | _ => simp [Station.binder?, Ident.node]

theorem mem_binders_iff {occurrence : Occurrence} :
    occurrence ∈ binders root region
      ↔ root.tree.nodeAt? occurrence.place = some occurrence.id.node
        ∧ region ∈ (programSetting root occurrence.place).binds := by
  rw [binders, List.mem_filterMap]
  constructor
  · rintro ⟨⟨place, node, setting⟩, listed, bound⟩
    obtain ⟨rfl, rfl, bound⟩ := Station.binder?_eq_some.1 bound
    obtain ⟨found, stands⟩ := mem_programStations.1 listed
    exact ⟨found, stands ▸ bound⟩
  · rintro ⟨found, bound⟩
    exact ⟨⟨_, _, _⟩, mem_programStations.2 ⟨found, rfl⟩,
      Station.binder?_eq_some.2 ⟨rfl, rfl, bound⟩⟩

/-! ## Regions of programs -/

theorem nodup_scopeKinds (isBody : Bool) (form : Form) : (scopeKinds isBody form).Nodup := by
  unfold scopeKinds
  split <;> (try split) <;> simp

theorem global_not_mem_scopeKinds (isBody : Bool) (form : Form) :
    ScopeKind.global ∉ scopeKinds isBody form := by
  unfold scopeKinds
  split <;> (try split) <;> simp

theorem map_innermost_openings (around : List Region) (here : Path) (kinds : List ScopeKind) :
    (Station.openings around here kinds).map Region.innermost
      = kinds.reverse.map (⟨·, here⟩) := by
  induction kinds with
  | nil => rfl
  | cons kind outer ih => simp [Station.openings, ih, Region.innermost]

/-- No region is opened twice. -/
theorem nodup_opened (root : Node) :
    (.global :: ((programStations root).flatMap Station.opens).map Region.innermost).Nodup := by
  have own : ∀ station : Station, station.opens.map Region.innermost
      = (scopeKinds station.setting.isBody station.node.form).reverse.map (⟨·, station.place⟩) :=
    fun station => map_innermost_openings _ _ _
  rw [List.map_flatMap, List.nodup_cons, List.nodup_flatMap]
  refine ⟨fun member => ?_, fun station _ => ?_, ?_⟩
  · obtain ⟨station, _, opened⟩ := List.mem_flatMap.1 member
    rw [own] at opened
    obtain ⟨kind, listed, same⟩ := List.mem_map.1 opened
    refine global_not_mem_scopeKinds station.setting.isBody station.node.form ?_
    rw [← show kind = .global from congrArg Region.kind same]
    exact List.mem_reverse.1 listed
  · rw [own]
    refine List.Nodup.map ?_ (List.nodup_reverse.2 (nodup_scopeKinds _ _))
    exact fun first second same => congrArg Region.kind same
  · have places := nodup_stations root.tree root.isView_tree .whole []
    refine (List.pairwise_map.1 places).imp fun {first second} apart => ?_
    intro region inFirst inSecond
    simp only [own] at inFirst inSecond
    obtain ⟨_, _, rfl⟩ := List.mem_map.1 inFirst
    obtain ⟨_, _, same⟩ := List.mem_map.1 inSecond
    exact apart (congrArg Region.block same).symm

/-! ## Effects of whole programs -/

section Pick

variable {first second : List Effect} (agree : ∀ key, pick key first = pick key second)

include agree

theorem declarationsIn_of_pick (region : Region) :
    declarationsIn region first = declarationsIn region second := by
  have picked : ∀ done, declarationsIn region done
      = declarationsIn region (pick (.region region) done) := by
    intro done
    rw [declarationsIn, declarationsIn, pick, List.filterMap_filter]
    refine List.filterMap_congr fun effect _ => ?_
    cases effect with
    | opened => rfl
    | declared target name definition =>
      by_cases same : target = region <;> simp [Effect.declaredIn?, Effect.key, same]
  rw [picked, agree, ← picked]

theorem opened_perm_of_pick :
    (first.filterMap Effect.opened?).Perm (second.filterMap Effect.opened?) := by
  have counted : ∀ stack done, (done.filterMap Effect.opened?).count stack
      = (pick (.stack stack) done).length := by
    intro stack done
    rw [List.count_filterMap, pick, ← List.countP_eq_length_filter]
    refine List.countP_congr fun effect _ => ?_
    cases effect <;> simp [Effect.opened?, Effect.key]
  -- All effects about one stack are equal, so that their number says everything.
  refine List.perm_iff_count.2 fun stack => ?_
  rw [counted, counted, agree]

end Pick

def programEffects (root : Node) : List Effect :=
  (programStations root).flatMap Station.effects

/-- The events of a program have the effects of its stations. -/
theorem pick_programEvents (shaped : root.Shaped) (key : Key) :
    pick key (effects [] (programEvents root)) = pick key (programEffects root) :=
  acts key shaped .whole [] .evaluate Setting.below_whole rfl

theorem Station.opened_effects (station : Station) :
    station.effects.filterMap Effect.opened? = station.opens := by
  have named : station.declares.filterMap Effect.opened? = [] := by
    refine List.filterMap_eq_nil_iff.2 fun effect member => ?_
    obtain ⟨place, ⟨span, form⟩, setting⟩ := station
    cases form with
    | identifier =>
      obtain ⟨_, _, rfl⟩ := List.mem_map.1 member
      rfl
    | function =>
      cases List.mem_singleton.1 member
      rfl
    | _ => cases member
  have opened : (station.opens.map Effect.opened).filterMap Effect.opened? = station.opens := by
    rw [List.filterMap_map]
    exact List.filterMap_some
  rw [Station.effects, List.filterMap_append, named, opened, List.append_nil]

theorem opened_programEffects (root : Node) :
    (programEffects root).filterMap Effect.opened?
      = (programStations root).flatMap Station.opens := by
  simp only [programEffects, List.filterMap_flatMap, Station.opened_effects]

/-! ### Declarations in a region -/

namespace Setting

theorem nodup_binds_part {setting : Setting} {here : Path} (below : setting.Below here)
    (distinct : setting.binds.Nodup) (form : Form) (field : Field) :
    (setting.part form here field).binds.Nodup := by
  cases form with
  | classDefinition role decorators id superClass body =>
    have around := below.innermost_ne (show ScopeKind.classBody ≠ .global by decide)
    simp only [part, boundPart]
    split
    next isId =>
      subst isId
      cases role with
      | declaration => simpa [aroundPart, scopeKindsAround] using around
      | expression => simp
    next => exact List.nodup_nil
  | _ =>
    simp only [part, boundPart]
    (try split) <;> simp [distinct]

end Setting

theorem below_settingAt {setting : Setting} {here : Path} (below : setting.Below here) (tree : Tree)
    (rest : Path) : (settingAt setting here tree rest).Below (rest ++ here) := by
  induction rest with
  | nil => exact below
  | cons step outer ih =>
    rw [settingAt]
    split
    · exact fun region member => Nat.lt_succ_of_lt (ih region member)
    · exact Setting.below_part ih _ _ _

theorem nodup_binds_settingAt {setting : Setting} {here : Path} (below : setting.Below here)
    (distinct : setting.binds.Nodup) (tree : Tree) (rest : Path) :
    (settingAt setting here tree rest).binds.Nodup := by
  induction rest with
  | nil => exact distinct
  | cons step outer ih =>
    rw [settingAt]
    split
    · exact ih
    · exact Setting.nodup_binds_part (below_settingAt below tree outer) ih _ _

def Station.declaration? (region : Region) (station : Station) :
    Option (String × Option Occurrence) :=
  match station.node with
  | ⟨_, .function ..⟩ =>
    if region = ⟨.function, station.place⟩ then some ("arguments", none) else none
  | _ => (station.binder? region).map fun occurrence => (occurrence.id.name, some occurrence)

theorem declarationsIn_map_declared {regions : List Region} (distinct : regions.Nodup)
    (region : Region) (name : String) (definition : Option Occurrence) :
    declarationsIn region (regions.map fun target => .declared target name definition)
      = if region ∈ regions then [(name, definition)] else [] := by
  induction regions with
  | nil => rfl
  | cons target rest ih =>
    obtain ⟨fresh, distinct⟩ := List.nodup_cons.1 distinct
    rw [List.map_cons, ← List.singleton_append, declarationsIn_append, declarationsIn_declared,
      ih distinct]
    by_cases same : target = region
    · subst same
      simp [fresh]
    · simp [same, Ne.symm same]

theorem Station.declarationsIn_effects (distinct : station.setting.binds.Nodup) (region : Region) :
    declarationsIn region station.effects = (station.declaration? region).toList := by
  have opened : declarationsIn region (station.opens.map .opened) = [] := by
    refine List.filterMap_eq_nil_iff.2 fun effect member => ?_
    obtain ⟨_, _, rfl⟩ := List.mem_map.1 member
    rfl
  rw [Station.effects, declarationsIn_append, opened, List.nil_append]
  obtain ⟨place, ⟨span, form⟩, setting⟩ := station
  cases form with
  | identifier name =>
    refine (declarationsIn_map_declared distinct region name _).trans ?_
    simp only [Station.declaration?, Station.binder?]
    split <;> rfl
  | function =>
    refine (declarationsIn_declared region _ _ _).trans ?_
    simp only [Station.declaration?, eq_comm]
    split <;> rfl
  | _ => rfl

/-- The declarations of a region, in the order of the text. -/
def declarationsOf (root : Node) (region : Region) : List (String × Option Occurrence) :=
  (programStations root).filterMap (Station.declaration? region)

theorem declarationsIn_programEffects (root : Node) (region : Region) :
    declarationsIn region (programEffects root) = declarationsOf root region := by
  rw [declarationsIn, declarationsOf, programEffects, List.filterMap_flatMap,
    List.filterMap_eq_flatMap_toList]
  refine List.flatMap_congr fun station listed => ?_
  have stands := (mem_programStations.1 listed).2
  refine Station.declarationsIn_effects ?_ region
  rw [stands]
  exact nodup_binds_settingAt Setting.below_whole List.nodup_nil root.tree station.place

/-! ## Scopes -/

/-- The scopes are those of the regions of a program, with the variables that are bound in them. -/
structure Scopes.DeclaredBy (scopes : Scopes) (root : Node) : Prop where
  distinct : (scopes.map LexicalScope.region).Nodup
  /-- There is a global scope, and one for each region that a node opens, inside the scopes of
  the regions around the node. -/
  nested : ∀ stack, (∃ number < scopes.length, scopes.stack number = stack)
    ↔ stack = [.global]
      ∨ ∃ station ∈ programStations root, ∃ opening ∈ station.opens, stack = opening ++ [.global]
  named : ∀ scope ∈ scopes, (scope.locals.map Variable.name).Nodup
  /-- An identifier that is bound in a region is a definition of the variable of its name in
  the scope of the region. -/
  bound : ∀ (place : Path) (id : Ident), root.tree.nodeAt? place = some id.node →
    ∀ region ∈ (programSetting root place).binds, ∃ scope ∈ scopes, scope.region = region
      ∧ ∃ binding ∈ scope.locals, binding.name = id.name ∧ ⟨place, id⟩ ∈ binding.definitions
  /-- Every function other than an arrow function has a variable `arguments`. -/
  arguments : ∀ region, hasArguments root region = true → ∃ scope ∈ scopes,
    scope.region = region ∧ ∃ binding ∈ scope.locals, binding.name = "arguments"
  /-- There are no other variables, except global ones. -/
  only : ∀ scope ∈ scopes, scope.region ≠ .global → ∀ binding ∈ scope.locals,
    binding.definitions ≠ []
      ∨ binding.name = "arguments" ∧ hasArguments root scope.region = true
  /-- The definitions of a variable are the identifiers of its name that are bound in the region
  of its scope, in the order in which they are visited. -/
  definitions : ∀ scope ∈ scopes, ∀ binding ∈ scope.locals, binding.definitions
    = (binders root scope.region).filter fun occurrence => occurrence.id.name = binding.name

theorem Scopes.Records.regions {scopes : Scopes} {done : List Effect}
    (records : scopes.Records done) :
    scopes.map LexicalScope.region
      = .global :: (done.filterMap Effect.opened?).map Region.innermost := by
  have first : scopes.map LexicalScope.region
      = ((List.range scopes.length).map scopes.stack).map Region.innermost := by
    refine List.ext_getElem? fun number => ?_
    rw [List.getElem?_map, List.getElem?_map, List.getElem?_map]
    by_cases known : number < scopes.length
    · rw [List.getElem?_eq_getElem known, List.getElem?_range known]
      exact congrArg some (Scopes.regionAt_of_getElem? (List.getElem?_eq_getElem known)).symm
    · rw [List.getElem?_eq_none (Nat.le_of_not_lt known),
        List.getElem?_eq_none (by simpa using known)]
      rfl
  rw [first, records.opened, List.map_cons, List.map_map]
  congr 1
  refine List.map_congr_left fun stack _ => ?_
  cases stack <;> rfl

theorem Station.declaration?_eq_some {name : String} {definition : Option Occurrence} :
    station.declaration? region = some (name, definition)
      ↔ (∃ occurrence, station.binder? region = some occurrence ∧ occurrence.id.name = name
          ∧ some occurrence = definition)
        ∨ ("arguments" = name ∧ none = definition) ∧ region = ⟨.function, station.place⟩
          ∧ (station.node matches ⟨_, .function ..⟩) = true := by
  obtain ⟨place, ⟨span, form⟩, setting⟩ := station
  cases form with
  | function =>
    simp only [Station.declaration?, Station.binder?]
    split <;> simp [*]
  | _ => simp [Station.declaration?]

theorem mem_declarationsOf {name : String} {definition : Option Occurrence} :
    (name, definition) ∈ declarationsOf root region
      ↔ (∃ occurrence ∈ binders root region, occurrence.id.name = name
          ∧ some occurrence = definition)
        ∨ ("arguments" = name ∧ none = definition) ∧ hasArguments root region = true := by
  simp only [declarationsOf, List.mem_filterMap, Station.declaration?_eq_some]
  constructor
  · rintro ⟨station, listed, ⟨occurrence, bound, named⟩ | ⟨own, rfl, isFunction⟩⟩
    · exact .inl ⟨occurrence, List.mem_filterMap.2 ⟨station, listed, bound⟩, named⟩
    · refine .inr ⟨own, ?_⟩
      rw [hasArguments, (mem_programStations.1 listed).1]
      exact isFunction
  · rintro (⟨occurrence, bound, named⟩ | ⟨own, has⟩)
    · obtain ⟨station, listed, bound⟩ := List.mem_filterMap.1 bound
      exact ⟨station, listed, .inl ⟨occurrence, bound, named⟩⟩
    · obtain ⟨kind, place⟩ := region
      rw [hasArguments, Bool.and_eq_true, beq_iff_eq, Option.any_eq_true] at has
      obtain ⟨rfl, node, found, isFunction⟩ := has
      exact ⟨⟨place, node, programSetting root place⟩, mem_programStations.2 ⟨found, rfl⟩,
        .inr ⟨own, rfl, isFunction⟩⟩

theorem definitions_declarationsOf (root : Node) (region : Region) (name : String) :
    ((declarationsOf root region).filterMap
        fun (other, definition) => if other = name then definition else none)
      = (binders root region).filter fun occurrence => occurrence.id.name = name := by
  rw [declarationsOf, List.filterMap_filterMap, binders, List.filter_filterMap]
  refine List.filterMap_congr fun station _ => ?_
  obtain ⟨place, ⟨span, form⟩, setting⟩ := station
  cases form with
  | function =>
    simp only [Station.declaration?, Station.binder?]
    split <;> simp
  | _ =>
    simp only [Station.declaration?]
    cases Station.binder? region _ <;> simp [Option.filter]

section Recorded

variable {scopes : Scopes} {done : List Effect} {root : Node} (records : scopes.Records done)
  (opened : (done.filterMap Effect.opened?).Perm ((programStations root).flatMap Station.opens))
  (declared : ∀ region, ∃ more : List String, (region ≠ .global → more = [])
    ∧ declarationsIn region done = declarationsOf root region ++ more.map (·, none))

include records opened

theorem nodup_regions : (scopes.map LexicalScope.region).Nodup := by
  rw [records.regions, ((opened.map Region.innermost).cons .global).nodup_iff]
  exact nodup_opened root

include declared

theorem exists_binding {name : String} {definition : Option Occurrence}
    (declares : (name, definition) ∈ declarationsOf root region) :
    ∃ scope ∈ scopes, scope.region = region ∧ ∃ binding ∈ scope.locals, binding.name = name
      ∧ ∀ occurrence ∈ definition, occurrence ∈ binding.definitions := by
  obtain ⟨more, _, same⟩ := declared region
  have listed : (name, definition) ∈ declarationsIn region done := by
    rw [same]
    exact List.mem_append_left _ declares
  have known := records.known region (List.ne_nil_of_mem listed)
  obtain ⟨scope, member, rfl⟩ := List.mem_map.1 known
  have held := records.held (nodup_regions records opened) scope member
  have named := (held.names name).2 (List.mem_map.2 ⟨_, listed, rfl⟩)
  obtain ⟨binding, inLocals, rfl⟩ := List.mem_map.1 named
  refine ⟨scope, member, rfl, binding, inLocals, rfl, fun occurrence given => ?_⟩
  rw [held.definitions binding inLocals]
  exact List.mem_filterMap.2 ⟨_, listed, by simpa using given⟩

theorem definitions_of_records : ∀ scope ∈ scopes, ∀ binding ∈ scope.locals, binding.definitions
    = (binders root scope.region).filter fun occurrence => occurrence.id.name = binding.name := by
  intro scope member binding inLocals
  obtain ⟨more, _, same⟩ := declared scope.region
  have held := records.held (nodup_regions records opened) scope member
  rw [held.definitions binding inLocals, same, List.filterMap_append, definitions_declarationsOf]
  simp [List.filterMap_map]

theorem declaredBy_of_records : scopes.DeclaredBy root where
  distinct := nodup_regions records opened
  nested := by
    intro stack
    have listed : (∃ number < scopes.length, scopes.stack number = stack)
        ↔ stack ∈ (List.range scopes.length).map scopes.stack := by
      simp
    rw [listed, records.opened, List.mem_cons, List.mem_map]
    simp only [opened.mem_iff, List.mem_flatMap]
    constructor
    · rintro (rfl | ⟨opening, ⟨station, visited, opens⟩, rfl⟩)
      · exact .inl rfl
      · exact .inr ⟨station, visited, opening, opens, rfl⟩
    · rintro (rfl | ⟨station, visited, opening, opens, rfl⟩)
      · exact .inl rfl
      · exact .inr ⟨opening, ⟨station, visited, opens⟩, rfl⟩
  named := records.formed.distinct
  bound := by
    intro place id found region bound
    have listed : ⟨place, id⟩ ∈ binders root region := mem_binders_iff.2 ⟨found, bound⟩
    have member := mem_declarationsOf.2 (.inl ⟨_, listed, rfl, rfl⟩)
    obtain ⟨scope, inScopes, same, binding, inLocals, named, defined⟩ :=
      exists_binding records opened declared member
    exact ⟨scope, inScopes, same, binding, inLocals, named, defined _ rfl⟩
  arguments := by
    intro region has
    have member := mem_declarationsOf.2 (.inr ⟨⟨rfl, rfl⟩, has⟩)
    obtain ⟨scope, inScopes, same, binding, inLocals, named, _⟩ :=
      exists_binding records opened declared member
    exact ⟨scope, inScopes, same, binding, inLocals, named⟩
  only := by
    intro scope member inner binding inLocals
    obtain ⟨more, none, same⟩ := declared scope.region
    have held := records.held (nodup_regions records opened) scope member
    have named := (held.names binding.name).1 (List.mem_map_of_mem inLocals)
    rw [same, none inner, List.map_nil, List.append_nil] at named
    obtain ⟨⟨name, definition⟩, declares, sameName⟩ := List.mem_map.1 named
    rcases mem_declarationsOf.1 declares with ⟨occurrence, bound, rfl, _⟩ | ⟨⟨rfl, _⟩, has⟩
    · refine .inl (List.ne_nil_of_mem (a := occurrence) ?_)
      rw [definitions_of_records records opened declared scope member binding inLocals]
      exact List.mem_filter.2 ⟨bound, decide_eq_true sameName⟩
    · exact .inr ⟨sameName.symm, has⟩
  definitions := definitions_of_records records opened declared

end Recorded

/-- **The variables of scopes are the declared names.** -/
theorem declaredBy_analyze {root : Node} (shaped : root.Shaped) (globals : List String) :
    (analyze root globals).scopes.DeclaredBy root := by
  obtain ⟨known, records⟩ := records_resolveInTurn globals
    (Table.records_ofEvents (programEvents root)) (Table.ofEvents (programEvents root)).references
  have agree := pick_programEvents shaped
  refine declaredBy_of_records records ?_ fun region => ?_
  · have still : (known.map fun name => Effect.declared .global name none).filterMap Effect.opened?
        = [] := by simp [List.filterMap_map, Function.comp_def, Effect.opened?]
    rw [List.filterMap_append, still, List.append_nil, ← opened_programEffects]
    exact opened_perm_of_pick agree
  · refine ⟨if region = .global then known else [], fun other => if_neg other, ?_⟩
    rw [declarationsIn_append, declarationsIn_of_pick agree, declarationsIn_programEffects]
    refine congrArg _ ?_
    by_cases same : region = .global
    · simp [same, declarationsIn, Effect.declaredIn?, Function.comp_def]
    · simp [same, Ne.symm same, declarationsIn, Effect.declaredIn?, Function.comp_def]

/-- In `function f(a) { { var [b] = a; let c; } }` the identifier `b` is bound in the function,
and the inner block has the variable `c` only. -/
theorem declaredBy_analyze_block : ∃ root,
    Grammar.parse "function f(a) { { var [b] = a; let c; } }" = .ok root ∧ root.Shaped
      ∧ (∃ scope ∈ (analyze root []).scopes, scope.region = ⟨.function, [⟨.body, 0⟩]⟩
        ∧ ∃ binding ∈ scope.locals, binding.name = "b")
      ∧ ∃ scope ∈ (analyze root []).scopes,
        scope.region = ⟨.block, [⟨.body, 0⟩, ⟨.body, 0⟩, ⟨.body, 0⟩]⟩
          ∧ ∃ binding ∈ scope.locals, binding.name = "c"
            ∧ ∀ other ∈ scope.locals, other.name = "c" := by
  have run : ((Grammar.parse "function f(a) { { var [b] = a; let c; } }").toOption.any fun root =>
      (binders root ⟨.function, [⟨.body, 0⟩]⟩).map (·.id.name) == ["a", "b"]
        && (binders root ⟨.block, [⟨.body, 0⟩, ⟨.body, 0⟩, ⟨.body, 0⟩]⟩).map (·.id.name)
          == ["c"]) = true := by
    decide +kernel
  obtain ⟨root, parsed, run⟩ := Grammar.exists_of_any_parse run
  simp only [Bool.and_eq_true, beq_iff_eq] at run
  obtain ⟨inFunction, inBlock⟩ := run
  have shaped := (Grammar.operand_of_parse parsed).1
  have declared := declaredBy_analyze shaped []
  have bound : ∀ region name, name ∈ (binders root region).map (·.id.name) →
      ∃ scope ∈ (analyze root []).scopes, scope.region = region
        ∧ ∃ binding ∈ scope.locals, binding.name = name := by
    intro region name listed
    obtain ⟨occurrence, binds, rfl⟩ := List.mem_map.1 listed
    obtain ⟨found, inside⟩ := mem_binders_iff.1 binds
    obtain ⟨scope, member, same, binding, inLocals, named, _⟩ :=
      declared.bound occurrence.place occurrence.id found region inside
    exact ⟨scope, member, same, binding, inLocals, named⟩
  obtain ⟨scope, member, same, binding, inLocals, named⟩ :=
    bound ⟨.block, [⟨.body, 0⟩, ⟨.body, 0⟩, ⟨.body, 0⟩]⟩ "c" (by simp [inBlock])
  refine ⟨root, parsed, shaped, bound _ "b" (by simp [inFunction]), scope, member, same, binding,
    inLocals, named, fun other inScope => ?_⟩
  rcases declared.only scope member (by simp [same, Region.global]) other inScope with
    some | ⟨_, has⟩
  · obtain ⟨occurrence, defines⟩ := List.exists_mem_of_ne_nil _ some
    rw [declared.definitions scope member other inScope, same] at defines
    obtain ⟨binds, sameName⟩ := List.mem_filter.1 defines
    have listed := List.mem_map_of_mem (f := fun occurrence => occurrence.id.name) binds
    rw [inBlock, List.mem_singleton] at listed
    exact (of_decide_eq_true sameName).symm.trans listed
  · simp [same, hasArguments] at has

end TemplateLint.Scope
