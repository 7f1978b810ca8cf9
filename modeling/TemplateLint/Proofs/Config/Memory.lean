import TemplateLint.Proofs.Config.Layers

/-!
# Configurations that can be changed in place

A configuration may also be held as objects that can be changed: its tables and lists have
addresses (`Handle`), and so have the lists of patterns in the table of suppressions. One such
configuration is laid over another by copying what the first one holds and adding to the copies,
item by item (`Memory.layer`). The outcome is the layer of the two (`Memory.layer_holds`), and
since only copies change, everything that was held before is still the same
(`Memory.extends_layer`).
-/

namespace TemplateLint

namespace Config

/-! ## Objects -/

/-- The objects in memory by their kinds. The address of an object is its place among those of
its kind. -/
structure Memory where
  settings : List (Entries RuleSetting)
  flags : List (Entries Bool)
  tables : List (Entries Json)
  lists : List (List String)
  shelves : List (Entries Nat)

/-- A configuration in memory, with the addresses of its tables and lists. -/
structure Handle where
  rules : Nat
  globals : Nat
  environments : Nat
  decorators : Nat
  standardDecorators : Bool
  suppressions : Nat
  source? : Option String

/-- A table of lists, read at the addresses that it holds. -/
def contents (lists : List (List String)) (shelf : Entries Nat) : Entries (Option (List String)) :=
  shelf.map fun entry => (entry.1, lists[entry.2]?)

def HoldsLists (lists : List (List String)) (shelf : Entries Nat)
    (patterns : Entries (List String)) : Prop :=
  contents lists shelf = patterns.map fun entry => (entry.1, some entry.2)

/-- What a configuration in memory is at the moment. -/
structure Memory.Holds (memory : Memory) (handle : Handle) (config : Config) : Prop where
  rules : memory.settings[handle.rules]? = some config.rules
  globals : memory.flags[handle.globals]? = some config.globals
  environments : memory.lists[handle.environments]? = some config.environments
  decorators : memory.tables[handle.decorators]? = some config.decorators
  standardDecorators : handle.standardDecorators = config.standardDecorators
  suppressions : ∃ shelf, memory.shelves[handle.suppressions]? = some shelf
    ∧ HoldsLists memory.lists shelf config.suppressions
  source? : handle.source? = config.source?

/-! ## Laying over -/

/-- Copies of the lists of a table, and the table of the copies. -/
def copyLists : List (List String) → Entries Nat → List (List String) × Entries Nat
  | lists, [] => (lists, [])
  | lists, (id, address) :: rest =>
    let (copied, shelf) := copyLists (lists ++ [lists[address]?.getD []]) rest
    (copied, (id, lists.length) :: shelf)

/-- The lists after items have been added to one of them, each unless it is there by then. -/
def growList (address : Nat) (lists : List (List String)) (items : List String) :
    List (List String) :=
  items.foldl (fun lists item => lists.modify address (addNew · item)) lists

/-- Lists and a table of some of them, while the table is being built. -/
structure Shelving where
  lists : List (List String)
  shelf : Entries Nat

/-- Adds the items of a list to the one that the table has for an id, or to a new one. -/
def Shelving.grow (state : Shelving) (id : String) (address : Nat) : Shelving :=
  let items := state.lists[address]?.getD []
  match state.shelf.find? id with
  | some own => ⟨growList own state.lists items, state.shelf⟩
  | none =>
    ⟨growList state.lists.length (state.lists ++ [[]]) items,
      state.shelf.set id state.lists.length⟩

/-- The suppressions of the base, copied and grown by those that are added. -/
def Memory.layerShelves (memory : Memory) (base added : Handle) : Shelving :=
  let copied := copyLists memory.lists (memory.shelves[base.suppressions]?.getD [])
  (memory.shelves[added.suppressions]?.getD []).foldl
    (fun state entry => state.grow entry.1 entry.2) ⟨copied.1, copied.2⟩

/-- Lays one configuration in memory over another one; the outcome is a new one. -/
def Memory.layer (memory : Memory) (base added : Handle) : Memory × Handle :=
  let laid {α : Type} (tables : List (Entries α)) (first second : Nat) : List (Entries α) :=
    tables ++ [(tables[first]?.getD []).layer (tables[second]?.getD [])]
  let environments := memory.lists[base.environments]?.getD []
  let more := (memory.lists[added.environments]?.getD []).filter fun name =>
    !environments.contains name
  let state := memory.layerShelves base added
  ({ settings := laid memory.settings base.rules added.rules
     flags := laid memory.flags base.globals added.globals
     tables := laid memory.tables base.decorators added.decorators
     lists := state.lists ++ [environments ++ more]
     shelves := memory.shelves ++ [state.shelf] },
   { rules := memory.settings.length
     globals := memory.flags.length
     environments := state.lists.length
     decorators := memory.tables.length
     standardDecorators := base.standardDecorators && added.standardDecorators
     suppressions := memory.shelves.length
     source? := base.source? })

/-! ## What stays -/

section Extends

variable {α : Type}

/-- What stands at an address still stands there. -/
def Extends (before after : List α) : Prop :=
  ∀ (address : Nat) (value : α), before[address]? = some value → after[address]? = some value

theorem Extends.refl (cells : List α) : Extends cells cells := fun _ _ held => held

theorem Extends.trans {first second third : List α} (one : Extends first second)
    (two : Extends second third) : Extends first third :=
  fun address value held => two address value (one address value held)

theorem extends_append (cells more : List α) : Extends cells (cells ++ more) := by
  intro address value held
  obtain ⟨inside, -⟩ := List.getElem?_eq_some_iff.1 held
  rw [List.getElem?_append_left inside, held]

theorem Extends.length_le {before after : List α} (keeps : Extends before after) :
    before.length ≤ after.length := by
  refine Nat.le_of_not_lt fun inside => ?_
  have held := keeps _ _ (List.getElem?_eq_getElem inside)
  rw [List.getElem?_eq_none (Nat.le_refl _)] at held
  cases held

end Extends

theorem HoldsLists.exists_of_mem {lists : List (List String)} {shelf : Entries Nat}
    {patterns : Entries (List String)} (holds : HoldsLists lists shelf patterns)
    {entry : String × Nat} (member : entry ∈ shelf) : ∃ items, lists[entry.2]? = some items := by
  have listed : (entry.1, lists[entry.2]?) ∈ contents lists shelf := List.mem_map_of_mem member
  rw [holds] at listed
  obtain ⟨pattern, -, same⟩ := List.mem_map.1 listed
  exact ⟨pattern.2, (congrArg Prod.snd same).symm⟩

theorem HoldsLists.extend {lists more : List (List String)} {shelf : Entries Nat}
    {patterns : Entries (List String)} (holds : HoldsLists lists shelf patterns)
    (keeps : Extends lists more) : HoldsLists more shelf patterns := by
  refine Eq.trans (List.map_congr_left fun entry member => ?_) holds
  obtain ⟨items, held⟩ := holds.exists_of_mem member
  rw [held, keeps _ _ held]

/-- Objects may be added, but none is changed. -/
structure Memory.Extends (before after : Memory) : Prop where
  settings : Config.Extends before.settings after.settings
  flags : Config.Extends before.flags after.flags
  tables : Config.Extends before.tables after.tables
  lists : Config.Extends before.lists after.lists
  shelves : Config.Extends before.shelves after.shelves

theorem Memory.Holds.extend {before after : Memory} {handle : Handle} {config : Config}
    (holds : before.Holds handle config) (keeps : before.Extends after) :
    after.Holds handle config where
  rules := keeps.settings _ _ holds.rules
  globals := keeps.flags _ _ holds.globals
  environments := keeps.lists _ _ holds.environments
  decorators := keeps.tables _ _ holds.decorators
  standardDecorators := holds.standardDecorators
  suppressions := by
    obtain ⟨shelf, found, held⟩ := holds.suppressions
    exact ⟨shelf, keeps.shelves _ _ found, held.extend keeps.lists⟩
  source? := holds.source?

/-! ## Lists that grow -/

theorem getElem?_growList (address : Nat) (lists : List (List String)) (items : List String)
    (other : Nat) :
    (growList address lists items)[other]?
      = if other = address then lists[other]?.map (items.foldl addNew ·) else lists[other]? := by
  induction items generalizing lists with
  | nil => simp [growList]
  | cons item rest ih =>
    have step : growList address lists (item :: rest)
        = growList address (lists.modify address (addNew · item)) rest := rfl
    rw [step, ih, List.getElem?_modify]
    by_cases same : other = address
    · subst same
      simp [Function.comp_def]
    · simp [same, Ne.symm same]

theorem extends_growList {start lists : List (List String)} (keeps : Extends start lists)
    {address : Nat} (fresh : start.length ≤ address) (items : List String) :
    Extends start (growList address lists items) := by
  intro other value held
  obtain ⟨inside, -⟩ := List.getElem?_eq_some_iff.1 held
  rw [getElem?_growList, if_neg (by omega), keeps other value held]

theorem contents_growList {shelf : Entries Nat} (apart : (shelf.map Prod.snd).Nodup) {id : String}
    {own : Nat} (found : shelf.find? id = some own) (lists : List (List String))
    (items : List String) :
    contents (growList own lists items) shelf
      = Entries.set id (lists[own]?.map (items.foldl addNew ·)) (contents lists shelf) := by
  obtain ⟨before, after, rfl, earlier⟩ := List.lookup_eq_some_iff.1 found
  have absent : id ∉ (contents lists before).names := by
    rw [contents, Entries.names_map_values]
    intro member
    obtain ⟨entry, listed, rfl⟩ := List.mem_map.1 member
    simpa using earlier entry listed
  have others : ∀ entry ∈ before ++ after, entry.2 ≠ own := by
    rintro entry listed rfl
    have twice : (((id, entry.2) :: (before ++ after)).map Prod.snd).Nodup :=
      (List.perm_middle.map Prod.snd).nodup_iff.1 apart
    exact (List.nodup_cons.1 twice).1 (List.mem_map.2 ⟨entry, listed, rfl⟩)
  have same : ∀ part, (∀ entry ∈ part, entry ∈ before ++ after) →
      contents (growList own lists items) part = contents lists part := by
    refine fun part within => List.map_congr_left fun entry member => ?_
    rw [getElem?_growList, if_neg (others entry (within entry member))]
  have split : ∀ cells, contents cells (before ++ (id, own) :: after)
      = contents cells before ++ (id, cells[own]?) :: contents cells after :=
    fun cells => List.map_append
  rw [split, split, Entries.set_append_cons absent, getElem?_growList, if_pos rfl,
    same before fun _ => List.mem_append_left after,
    same after fun _ => List.mem_append_right before]

/-! ## Tables of lists -/

theorem HoldsLists.find? {lists : List (List String)} {shelf : Entries Nat}
    {patterns : Entries (List String)} (holds : HoldsLists lists shelf patterns) (id : String) :
    (shelf.find? id).map (lists[·]?) = (patterns.find? id).map some := by
  rw [← Entries.find?_map_values, ← Entries.find?_map_values]
  exact congrArg (Entries.find? · id) holds

theorem HoldsLists.names {lists : List (List String)} {shelf : Entries Nat}
    {patterns : Entries (List String)} (holds : HoldsLists lists shelf patterns) :
    shelf.names = patterns.names := by
  have same := congrArg Entries.names holds
  rwa [contents, Entries.names_map_values, Entries.names_map_values] at same

theorem map_set_values {α β : Type} (f : α → β) (id : String) (value : α) (entries : Entries α) :
    (Entries.set id value entries).map (fun entry => (entry.1, f entry.2))
      = Entries.set id (f value) (entries.map fun entry => (entry.1, f entry.2)) := by
  induction entries with
  | nil => rfl
  | cons entry rest ih =>
    rw [Entries.set, List.map_cons, Entries.set]
    split
    · rfl
    · rw [List.map_cons, ih]

/-- The table that is being built holds the patterns, and has its lists for itself: they are
none of those that were there at the start, and no two ids have the same. -/
structure Shelving.Owns (start : List (List String)) (state : Shelving)
    (patterns : Entries (List String)) : Prop where
  holds : HoldsLists state.lists state.shelf patterns
  keeps : Extends start state.lists
  fresh : ∀ entry ∈ state.shelf, start.length ≤ entry.2
  apart : (state.shelf.map Prod.snd).Nodup

/-- A new list, behind all others, is given to an id. -/
theorem Shelving.Owns.append {start : List (List String)} {state : Shelving}
    {patterns : Entries (List String)} (owns : state.Owns start patterns)
    {lists : List (List String)} (keeps : Extends state.lists lists) {items : List String}
    (last : lists[state.lists.length]? = some items) (id : String) :
    Shelving.Owns start ⟨lists, state.shelf ++ [(id, state.lists.length)]⟩
      (patterns ++ [(id, items)]) := by
  refine ⟨?_, owns.keeps.trans keeps, fun entry member => ?_, ?_⟩
  · rw [HoldsLists, contents, List.map_append, List.map_append]
    exact congrArg₂ (· ++ ·) (owns.holds.extend keeps) (congrArg (fun items => [(id, items)]) last)
  · obtain earlier | last := List.mem_append.1 member
    · exact owns.fresh entry earlier
    · obtain rfl := List.mem_singleton.1 last
      exact owns.keeps.length_le
  · rw [List.map_append, List.map_singleton, List.nodup_append]
    refine ⟨owns.apart, List.nodup_singleton _, ?_⟩
    rintro address listed _ last rfl
    obtain ⟨entry, member, rfl⟩ := List.mem_map.1 listed
    obtain ⟨items, held⟩ := owns.holds.exists_of_mem member
    have inside : entry.2 < state.lists.length := (List.getElem?_eq_some_iff.1 held).1
    exact absurd (List.mem_singleton.1 last) (Nat.ne_of_lt inside)

/-- One step of laying over: the patterns of one id are added. -/
theorem Shelving.Owns.grow {start : List (List String)} {state : Shelving}
    {patterns : Entries (List String)} (owns : state.Owns start patterns) {address : Nat}
    {items : List String} (held : start[address]? = some items) (id : String) :
    (state.grow id address).Owns start (layerPatterns patterns id items) := by
  have found := owns.holds.find? id
  simp only [Shelving.grow, owns.keeps _ _ held, Option.getD_some]
  cases known : state.shelf.find? id with
  | some own =>
    obtain ⟨before, after, shelf, -⟩ := List.lookup_eq_some_iff.1 known
    have fresh : start.length ≤ own := owns.fresh (id, own) (by simp [shelf])
    refine ⟨?_, extends_growList owns.keeps fresh items, owns.fresh, owns.apart⟩
    rw [known] at found
    cases listed : patterns.find? id with
    | none => simp [listed] at found
    | some old =>
      have content : state.lists[own]? = some old := by simpa [listed] using found
      rw [HoldsLists, contents_growList owns.apart known, owns.holds, content, layerPatterns,
        listed, map_set_values]
      rfl
  | none =>
    have absent : id ∉ state.shelf.names := Entries.find?_eq_none_iff.1 known
    have unlisted : id ∉ patterns.names := owns.holds.names ▸ absent
    have grown : Extends state.lists (growList state.lists.length (state.lists ++ [[]]) items) :=
      extends_growList (extends_append _ _) (Nat.le_refl _) items
    rw [layerPatterns, Entries.find?_eq_none_iff.2 unlisted, Entries.set_of_not_mem absent,
      Entries.set_of_not_mem unlisted]
    refine owns.append grown ?_ id
    rw [getElem?_growList, if_pos rfl]
    simp

theorem Shelving.Owns.foldl {start : List (List String)} {added : Entries Nat}
    {more : Entries (List String)} (holds : HoldsLists start added more) {state : Shelving}
    {patterns : Entries (List String)} (owns : state.Owns start patterns) :
    (added.foldl (fun state entry => state.grow entry.1 entry.2) state).Owns start
      (more.foldl (fun merged entry => layerPatterns merged entry.1 entry.2) patterns) := by
  induction added generalizing more state patterns with
  | nil =>
    obtain rfl : more = [] := List.map_eq_nil_iff.1 holds.symm
    exact owns
  | cons entry rest ih =>
    obtain ⟨first, others, rfl, same, holds⟩ := List.map_eq_cons_iff.1 holds.symm
    obtain ⟨named, held⟩ := Prod.mk.inj same
    rw [List.foldl_cons, List.foldl_cons, named]
    exact ih holds.symm (owns.grow held.symm entry.1)

/-- Copies of lists belong to the table of the copies alone. -/
theorem owns_copyLists {lists : List (List String)} {shelf : Entries Nat}
    {patterns : Entries (List String)} (holds : HoldsLists lists shelf patterns) :
    Shelving.Owns lists ⟨(copyLists lists shelf).1, (copyLists lists shelf).2⟩ patterns := by
  induction shelf generalizing lists patterns with
  | nil =>
    obtain rfl : patterns = [] := List.map_eq_nil_iff.1 holds.symm
    exact ⟨rfl, .refl lists, fun _ member => absurd member List.not_mem_nil, List.nodup_nil⟩
  | cons entry rest ih =>
    obtain ⟨first, others, rfl, same, holds⟩ := List.map_eq_cons_iff.1 holds.symm
    obtain ⟨named, held⟩ := Prod.mk.inj same
    have copy : lists[entry.2]?.getD [] = first.2 := by rw [← held, Option.getD_some]
    have keeps := extends_append lists [first.2]
    have owns := ih (HoldsLists.extend holds.symm keeps)
    rw [copyLists, copy]
    refine ⟨?_, keeps.trans owns.keeps, ?_, ?_⟩
    · have here := owns.keeps lists.length first.2 (by simp)
      exact congrArg₂ List.cons (Prod.ext named.symm here) owns.holds
    · intro other member
      obtain rfl | later := List.mem_cons.1 member
      · exact Nat.le_refl _
      · have beyond := owns.fresh other later
        rw [List.length_append] at beyond
        exact Nat.le_of_add_right_le beyond
    · refine List.nodup_cons.2 ⟨fun listed => ?_, owns.apart⟩
      obtain ⟨other, member, same⟩ := List.mem_map.1 listed
      have beyond := owns.fresh other member
      rw [List.length_append, List.length_singleton, same] at beyond
      exact absurd beyond (Nat.not_succ_le_self _)

/-! ## Laying over, as a whole -/

namespace Memory

variable {memory : Memory} {base added : Handle} {first second : Config}

theorem owns_layerShelves (holds : memory.Holds base first) (holds' : memory.Holds added second) :
    (memory.layerShelves base added).Owns memory.lists (first.layer second).suppressions := by
  obtain ⟨shelf, found, held⟩ := holds.suppressions
  obtain ⟨shelf', found', held'⟩ := holds'.suppressions
  rw [layerShelves, found, found', Option.getD_some, Option.getD_some]
  exact (owns_copyLists held).foldl held'

/-- Laying one configuration over another changes nothing that was held before. -/
theorem extends_layer (holds : memory.Holds base first) (holds' : memory.Holds added second) :
    memory.Extends (memory.layer base added).1 where
  settings := extends_append _ _
  flags := extends_append _ _
  tables := extends_append _ _
  lists := (owns_layerShelves holds holds').keeps.trans (extends_append _ _)
  shelves := extends_append _ _

/-- The new configuration in memory is the layer of the two. -/
theorem layer_holds (holds : memory.Holds base first) (holds' : memory.Holds added second) :
    (memory.layer base added).1.Holds (memory.layer base added).2 (first.layer second) where
  rules := by simp [Memory.layer, Config.layer, holds.rules, holds'.rules]
  globals := by simp [Memory.layer, Config.layer, holds.globals, holds'.globals]
  environments := by simp [Memory.layer, Config.layer, holds.environments, holds'.environments]
  decorators := by simp [Memory.layer, Config.layer, holds.decorators, holds'.decorators]
  standardDecorators := by
    simp [Memory.layer, Config.layer, holds.standardDecorators, holds'.standardDecorators]
  suppressions :=
    ⟨_, by simp [Memory.layer],
      (owns_layerShelves holds holds').holds.extend (extends_append _ _)⟩
  source? := by simp [Memory.layer, Config.layer, holds.source?]

end Memory

end Config

/-- Entries with others laid over them: what is added counts, and no name is lost. -/
structure Entries.LaidOver {α : Type} (base added merged : Entries α) : Prop where
  value : ∀ name, merged.find? name = (added.find? name).or (base.find? name)
  names : ∀ name, name ∈ merged.names ↔ name ∈ base.names ∨ name ∈ added.names

theorem Entries.laidOver_layer {α : Type} (base : Entries α) {added : Entries α}
    (distinct : added.names.Nodup) : LaidOver base added (base.layer added) :=
  ⟨find?_layer distinct, fun _ => mem_names_layer⟩

namespace Config

/-- **Layers are lawful.** Three layers make the same configuration, whichever two are put
together first, and the empty configuration changes nothing. The rules, globals and decorators
that are laid over others count, and no name is lost. Where the configurations are objects in
memory, laying one over the other gives the layer as a new object and leaves every configuration
in memory, those two among them, as it is. -/
theorem layer_lawful {first second third : Config} (distinct : first.Distinct)
    (distinct' : second.Distinct) (distinct'' : third.Distinct) :
    (first.layer second).layer third = first.layer (second.layer third)
    ∧ first.layer .empty = first
    ∧ Entries.LaidOver first.rules second.rules (first.layer second).rules
    ∧ Entries.LaidOver first.globals second.globals (first.layer second).globals
    ∧ Entries.LaidOver first.decorators second.decorators (first.layer second).decorators
    ∧ ∀ (memory : Memory) (base added : Handle),
      memory.Holds base first → memory.Holds added second →
      (memory.layer base added).1.Holds (memory.layer base added).2 (first.layer second)
      ∧ ∀ handle config, memory.Holds handle config →
        (memory.layer base added).1.Holds handle config := by
  refine ⟨layer_assoc distinct distinct' distinct'', layer_empty first,
    Entries.laidOver_layer _ distinct'.rules, Entries.laidOver_layer _ distinct'.globals,
    Entries.laidOver_layer _ distinct'.decorators, fun memory base added holds holds' => ?_⟩
  refine ⟨Memory.layer_holds holds holds', fun handle config held => ?_⟩
  exact held.extend (Memory.extends_layer holds holds')

/-- A pattern that comes twice below stays so, and one that is added comes once. The lists that
were in memory are unchanged, and the new ones stand behind them. -/
theorem layer_lawful_repeated :
    ∃ (first second third : Config) (memory : Memory) (base added : Handle),
    first.suppressions = [("x", ["p", "p"])]
    ∧ second.suppressions = [("x", ["q", "p", "q"]), ("y", ["p", "p"])]
    ∧ third.suppressions = [("y", ["q"]), ("z", [])]
    ∧ ((first.layer second).layer third).suppressions
      = [("x", ["p", "p", "q"]), ("y", ["p", "q"]), ("z", [])]
    ∧ (first.layer second).layer third = first.layer (second.layer third)
    ∧ memory.Holds base first ∧ memory.Holds added second
    ∧ memory.lists = [["node", "node"], ["es6", "node"], ["p", "p"], ["q", "p", "q"], ["p", "p"]]
    ∧ (memory.layer base added).1.lists = memory.lists
      ++ [["p", "p", "q"], ["p"], ["node", "node", "es6"]]
    ∧ (memory.layer base added).1.Holds base first
    ∧ (memory.layer base added).1.Holds added second := by
  have below : Memory.Holds
      ⟨[[], []], [[], []], [[], []],
        [["node", "node"], ["es6", "node"], ["p", "p"], ["q", "p", "q"], ["p", "p"]],
        [[("x", 2)], [("x", 3), ("y", 4)]]⟩
      ⟨0, 0, 0, 0, true, 0, none⟩
      ⟨[], [], ["node", "node"], [], true, [("x", ["p", "p"])], none⟩ :=
    ⟨rfl, rfl, rfl, rfl, rfl, ⟨_, rfl, rfl⟩, rfl⟩
  have above : Memory.Holds
      ⟨[[], []], [[], []], [[], []],
        [["node", "node"], ["es6", "node"], ["p", "p"], ["q", "p", "q"], ["p", "p"]],
        [[("x", 2)], [("x", 3), ("y", 4)]]⟩
      ⟨1, 1, 1, 1, true, 1, none⟩
      ⟨[], [], ["es6", "node"], [], true, [("x", ["q", "p", "q"]), ("y", ["p", "p"])], none⟩ :=
    ⟨rfl, rfl, rfl, rfl, rfl, ⟨_, rfl, rfl⟩, rfl⟩
  have distinct : Distinct ⟨[], [], ["node", "node"], [], true, [("x", ["p", "p"])], none⟩ := by
    decide
  have distinct' : Distinct ⟨[], [], ["es6", "node"], [], true,
      [("x", ["q", "p", "q"]), ("y", ["p", "p"])], none⟩ := by
    decide
  have distinct'' : Distinct ⟨[], [], [], [], true, [("y", ["q"]), ("z", [])], none⟩ := by decide
  have laws := layer_lawful distinct distinct' distinct''
  obtain ⟨_, keeps⟩ := laws.2.2.2.2.2 _ _ _ below above
  exact ⟨_, _, _, _, _, _, rfl, rfl, rfl, by decide, laws.1, below, above, rfl, by decide,
    keeps _ _ below, keeps _ _ above⟩

end Config

end TemplateLint
