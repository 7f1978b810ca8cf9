import TemplateLint.Proofs.Decorator.Table

/-!
# Decorators of layered configurations

For a layer of two configurations it makes no difference whether the decorator tables are laid over
one another and then read, or each is read and the registries are laid over one another
(`registry_layer`).
-/

namespace TemplateLint.Config

open TemplateLint.Decorator

/-! ## One configuration -/

theorem ofTable_eq_ok_iff {table : Entries Json} {registry : Registry} :
    Registry.ofTable (.object table) = .ok registry
      ↔ Registry.readEntries table = .ok registry.specs := by
  simp only [Registry.ofTable, bind_eq_ok_iff]
  constructor
  · rintro ⟨specs, read, made⟩
    cases made
    exact read
  · exact fun read => ⟨_, read, rfl⟩

theorem registry_eq_ok_iff {config : Config} {registry : Registry} :
    config.registry = .ok registry ↔ ∃ specs, Registry.readEntries config.decorators = .ok specs
      ∧ registry
        = if config.standardDecorators then Registry.standard.layer ⟨specs⟩ else ⟨specs⟩ := by
  simp only [Config.registry, bind_eq_ok_iff, ofTable_eq_ok_iff]
  constructor
  · rintro ⟨own, read, made⟩
    cases made
    exact ⟨own.specs, read, rfl⟩
  · rintro ⟨specs, read, rfl⟩
    exact ⟨⟨specs⟩, read, rfl⟩

theorem registry_eq_error_iff {config : Config} :
    (∃ fault, config.registry = .error fault)
      ↔ ∃ entry ∈ config.decorators, Malformed entry.1 entry.2 := by
  simp only [← Registry.readEntries_eq_error_iff, exists_eq_error_iff, Ne, registry_eq_ok_iff]
  constructor
  · exact fun fails specs read => fails _ ⟨specs, read, rfl⟩
  · rintro fails _ ⟨specs, read, -⟩
    exact fails specs read

/-! ## Two configurations -/

/-- The entry for a name when one configuration is laid over another: the one above, if there is
one. -/
def topmost? (base added : Config) (name : String) : Option Json :=
  (added.decorators.find? name).or (base.decorators.find? name)

variable {base added : Config}

theorem find?_layer_decorators (distinct : added.decorators.names.Nodup) (name : String) :
    (base.layer added).decorators.find? name = topmost? base added name :=
  Entries.find?_layer distinct name

/-- A registry of a layer knows what the topmost entries say, and behind them the standard
decorators if both configurations keep them. -/
theorem lookup?_of_registry_layer (distinct : base.decorators.names.Nodup)
    (distinct' : added.decorators.names.Nodup) {registry : Registry}
    (made : (base.layer added).registry = .ok registry) (name : String) :
    registry.lookup? name = ((topmost? base added name).bind fun entry =>
        (readEntry name entry).toOption).or
      (if base.standardDecorators && added.standardDecorators then Registry.standard.lookup? name
        else none) := by
  obtain ⟨specs, read, rfl⟩ := registry_eq_ok_iff.1 made
  have spelled : Registry.Distinct ⟨specs⟩ := by
    rw [Registry.Distinct, Registry.names_of_readEntries read]
    exact Entries.nodup_names_layer distinct _
  have own : Registry.lookup? ⟨specs⟩ name = (topmost? base added name).bind fun entry =>
      (readEntry name entry).toOption := by
    rw [← find?_layer_decorators distinct']
    exact Registry.find?_of_readEntries read name
  have keeps : (base.layer added).standardDecorators
      = (base.standardDecorators && added.standardDecorators) := rfl
  rw [keeps, ← own]
  cases base.standardDecorators && added.standardDecorators with
  | true => exact Registry.lookup?_layer _ spelled name
  | false => exact (Option.or_none).symm

/-- **Layering decorators commutes with reading them, all or nothing.** The layer of two
configurations has no registry exactly if one of its entries is malformed, the entry above hiding
the one below. Otherwise each name stands for what its topmost entry says, or else for the standard
decorator if both configurations keep those. If both tables are well formed, the registry is the
one that comes from reading each table and laying the registries over one another. Registries are
laid over one another in any grouping, and the empty one changes nothing. -/
theorem registry_layer (distinct : base.decorators.names.Nodup)
    (distinct' : added.decorators.names.Nodup) :
    ((∃ fault, (base.layer added).registry = .error fault)
      ↔ ∃ name entry, topmost? base added name = some entry ∧ Malformed name entry)
    ∧ (∀ registry, (base.layer added).registry = .ok registry → ∀ name,
      (∀ entry, topmost? base added name = some entry →
        ∃ spec, Describes name entry spec ∧ registry.lookup? name = some spec)
      ∧ (topmost? base added name = none → registry.lookup? name
        = if base.standardDecorators && added.standardDecorators
          then Registry.standard.lookup? name else none))
    ∧ ((∀ name entry, base.decorators.find? name = some entry → ¬ Malformed name entry) →
      (∀ name entry, added.decorators.find? name = some entry → ¬ Malformed name entry) →
      ∃ below above, Registry.ofTable (.object base.decorators) = .ok below
        ∧ Registry.ofTable (.object added.decorators) = .ok above
        ∧ (base.layer added).registry
          = .ok (if base.standardDecorators && added.standardDecorators
            then (Registry.standard.layer below).layer above else below.layer above))
    ∧ ∀ first second third : Registry, first.Distinct → second.Distinct → third.Distinct →
      (first.layer second).layer third = first.layer (second.layer third)
        ∧ first.layer .empty = first ∧ Registry.empty.layer first = first := by
  have merged : (base.layer added).decorators.names.Nodup := Entries.nodup_names_layer distinct _
  have failing : (∃ fault, (base.layer added).registry = .error fault)
      ↔ ∃ name entry, topmost? base added name = some entry ∧ Malformed name entry := by
    simp only [registry_eq_error_iff, ← find?_layer_decorators distinct',
      Entries.find?_eq_some_iff merged, Prod.exists]
  refine ⟨failing, fun registry made name => ?_, fun below above => ?_,
    fun first second third one two _ => ⟨Registry.layer_assoc one two third, rfl,
      Registry.empty_layer one⟩⟩
  · have lookup := lookup?_of_registry_layer distinct distinct' made name
    refine ⟨fun entry top => ?_, fun none => by simpa [none] using lookup⟩
    cases here : readEntry name entry with
    | error fault =>
      have malformed := readEntry_eq_error_iff.1 ⟨fault, here⟩
      obtain ⟨fault, fails⟩ := failing.2 ⟨name, entry, top, malformed⟩
      cases made.symm.trans fails
    | ok spec =>
      refine ⟨spec, readEntry_eq_ok_iff.1 here, ?_⟩
      simpa [top, here, Except.toOption] using lookup
  · obtain ⟨specs, read⟩ := Registry.exists_readEntries distinct below
    obtain ⟨more, read'⟩ := Registry.exists_readEntries distinct' above
    refine ⟨⟨specs⟩, ⟨more⟩, ofTable_eq_ok_iff.2 read, ofTable_eq_ok_iff.2 read', ?_⟩
    have spelled : Registry.Distinct ⟨specs⟩ := by
      rwa [Registry.Distinct, Registry.names_of_readEntries read]
    rw [registry_eq_ok_iff]
    refine ⟨specs.layer more, Registry.readEntries_layer distinct distinct' read read', ?_⟩
    rw [Registry.layer_assoc Registry.distinct_standard spelled]
    rfl

/-- The entry `{"global": false}` hides a malformed one, `null` hides a standard decorator, and the
registry has the others as well. -/
theorem registry_layer_hidden : ∃ base added : Config,
    base.decorators.names = ["A", "B"] ∧ added.decorators.names = ["A", "Store"]
    ∧ base.decorators.find? "A" = some (.int 1) ∧ Malformed "A" (.int 1)
    ∧ ∃ registry, (base.layer added).registry = .ok registry
      ∧ registry.lookup? "A" = some ⟨false, false, none, none, none⟩
      ∧ registry.lookup? "B" = some ⟨true, true, some "C", none, none⟩
      ∧ registry.lookup? "Store" = some ⟨true, false, none, none, none⟩
      ∧ registry.lookup? "Task" = Registry.standard.lookup? "Task" := by
  have valid : (Config.layer
      ⟨[], [], [], [("A", .int 1), ("B", .object [("inherits", .text "C")])], true, [], none⟩
      ⟨[], [], [], [("A", .object [("global", .bool false)]), ("Store", .null)], true, [],
        none⟩).registry.isOk = true := by
    decide +kernel
  obtain ⟨registry, made⟩ := exists_of_isOk valid
  have known := (registry_layer (by decide) (by decide)).2.1 registry made
  have reads : ∀ {name entry spec}, readEntry name entry = .ok spec →
      (∃ other, Describes name entry other ∧ registry.lookup? name = some other) →
      registry.lookup? name = some spec := by
    rintro name entry spec read ⟨other, describes, found⟩
    cases read.symm.trans (readEntry_eq_ok_iff.2 describes)
    exact found
  refine ⟨⟨[], [], [], [("A", .int 1), ("B", .object [("inherits", .text "C")])], true, [], none⟩,
    ⟨[], [], [], [("A", .object [("global", .bool false)]), ("Store", .null)], true, [], none⟩,
    rfl, rfl, rfl, .entry fun members has => ?_, registry, made, reads rfl ((known "A").1 _ rfl),
    reads rfl ((known "B").1 _ rfl), reads rfl ((known "Store").1 _ rfl), (known "Task").2 rfl⟩
  cases has

end TemplateLint.Config
