import TemplateLint.Config.Basic
import TemplateLint.Proofs.Run.Joining

/-!
# Layers of configurations

The tables of a configuration are dictionaries (`Config.Distinct`), and so are those of a layer.
Each part of a configuration is laid over another one in its own way; all of these ways are
associative, so layers are (`layer_assoc`).
-/

namespace TemplateLint

namespace Entries

variable {α β : Type}

theorem names_map_values (f : α → β) (entries : Entries α) :
    names (entries.map fun entry => (entry.1, f entry.2)) = entries.names := by
  simp [names]

theorem find?_map_values (f : α → β) (entries : Entries α) (name : String) :
    find? (entries.map fun entry => (entry.1, f entry.2)) name = (entries.find? name).map f := by
  induction entries with
  | nil => rfl
  | cons entry rest ih =>
    obtain ⟨key, value⟩ := entry
    rw [List.map_cons, find?_cons, find?_cons, ih]
    split <;> rfl

theorem layer_eq_combine (base added : Entries α) :
    base.layer added = Results.combine (fun _ new => new) base added := by
  induction added generalizing base with
  | nil => rfl
  | cons entry rest ih =>
    have value : (base.find? entry.1).elim entry.2 (fun _ => entry.2) = entry.2 := by
      cases base.find? entry.1 <;> rfl
    rw [Results.combine_cons, value]
    exact ih _

theorem mem_names_layer {base added : Entries α} {name : String} :
    name ∈ (base.layer added).names ↔ name ∈ base.names ∨ name ∈ added.names := by
  rw [layer_eq_combine, Results.names_combine, Results.mem_addNames]

theorem nodup_names_layer {base : Entries α} (distinct : base.names.Nodup) (added : Entries α) :
    (base.layer added).names.Nodup := by
  rw [layer_eq_combine]
  exact Results.nodup_names_combine _ distinct added

theorem layer_assoc {first second : Entries α} (distinct : first.names.Nodup)
    (distinct' : second.names.Nodup) (third : Entries α) :
    (first.layer second).layer third = first.layer (second.layer third) := by
  simp only [layer_eq_combine]
  exact Results.combine_assoc _ (fun _ _ _ => rfl) distinct distinct' third

end Entries

namespace Config

/-! ## Tables -/

/-- The tables of a configuration have one value for each name. -/
structure Distinct (config : Config) : Prop where
  rules : config.rules.names.Nodup
  globals : config.globals.names.Nodup
  decorators : config.decorators.names.Nodup
  suppressions : config.suppressions.names.Nodup

instance (config : Config) : Decidable config.Distinct :=
  decidable_of_iff (config.rules.names.Nodup ∧ config.globals.names.Nodup
      ∧ config.decorators.names.Nodup ∧ config.suppressions.names.Nodup)
    ⟨fun all => ⟨all.1, all.2.1, all.2.2.1, all.2.2.2⟩, fun distinct =>
      ⟨distinct.rules, distinct.globals, distinct.decorators, distinct.suppressions⟩⟩

/-! ## Patterns -/

theorem foldl_addNew (items more : List String) :
    more.foldl addNew items = Results.addNames items more := rfl

theorem suppressions_layer_eq_combine (base added : Config) :
    (base.layer added).suppressions = Results.combine Results.addNames base.suppressions
      (added.suppressions.map fun entry => (entry.1, Results.addNames [] entry.2)) := by
  have general : ∀ (more patterns : Entries (List String)),
      more.foldl (fun merged entry => layerPatterns merged entry.1 entry.2) patterns
        = Results.combine Results.addNames patterns
          (more.map fun entry => (entry.1, Results.addNames [] entry.2)) := by
    intro more
    induction more with
    | nil => exact fun _ => rfl
    | cons entry rest ih =>
      intro patterns
      rw [List.foldl_cons, ih, List.map_cons, Results.combine_cons, layerPatterns, foldl_addNew]
      cases patterns.find? entry.1 with
      | none => rfl
      | some known =>
        rw [Option.getD_some, Option.elim_some, Results.addNames_addNames, Results.addNames_none]
  exact general _ _

theorem find?_layer_suppressions (base : Config) {added : Config}
    (distinct : added.suppressions.names.Nodup) (id : String) :
    (base.layer added).suppressions.find? id
      = Option.merge Results.addNames (base.suppressions.find? id)
        ((added.suppressions.find? id).map (Results.addNames [])) := by
  rw [suppressions_layer_eq_combine, Results.find?_combine, Results.joined_of_nodup,
    Entries.find?_map_values]
  exact (Entries.names_map_values _ _).symm ▸ distinct

theorem names_layer_suppressions (base added : Config) :
    (base.layer added).suppressions.names
      = Results.addNames base.suppressions.names added.suppressions.names := by
  rw [suppressions_layer_eq_combine, Results.names_combine, Entries.names_map_values]

/-! ## Layers -/

theorem Distinct.layer {base : Config} (distinct : base.Distinct) (added : Config) :
    (base.layer added).Distinct where
  rules := Entries.nodup_names_layer distinct.rules _
  globals := Entries.nodup_names_layer distinct.globals _
  decorators := Entries.nodup_names_layer distinct.decorators _
  suppressions := by
    rw [names_layer_suppressions]
    exact Results.nodup_addNames distinct.suppressions _

theorem layer_empty (config : Config) : config.layer .empty = config := by
  simp [layer, empty, Entries.layer]

theorem environments_layer_assoc (first second third : Config) :
    ((first.layer second).layer third).environments
      = (first.layer (second.layer third)).environments := by
  simp only [layer, List.filter_append, List.filter_filter, List.append_assoc]
  congr 2
  refine List.filter_congr fun name _ => ?_
  by_cases inFirst : name ∈ first.environments <;> simp [inFirst]

theorem suppressions_layer_assoc {first second third : Config} (distinct : first.Distinct)
    (distinct' : second.Distinct) (distinct'' : third.Distinct) :
    ((first.layer second).layer third).suppressions
      = (first.layer (second.layer third)).suppressions := by
  refine Entries.ext_find? ((distinct.layer second).layer third).suppressions ?_ fun id => ?_
  · simp only [names_layer_suppressions, Results.addNames_addNames]
  · rw [find?_layer_suppressions _ distinct''.suppressions,
      find?_layer_suppressions _ distinct'.suppressions,
      find?_layer_suppressions _ (distinct'.layer third).suppressions,
      find?_layer_suppressions _ distinct''.suppressions]
    cases first.suppressions.find? id <;> cases second.suppressions.find? id
      <;> cases third.suppressions.find? id
      <;> simp [Results.addNames_addNames]

/-- Configurations are laid over one another in any grouping. -/
theorem layer_assoc {first second third : Config} (distinct : first.Distinct)
    (distinct' : second.Distinct) (distinct'' : third.Distinct) :
    (first.layer second).layer third = first.layer (second.layer third) := by
  have environments := environments_layer_assoc first second third
  have suppressions := suppressions_layer_assoc distinct distinct' distinct''
  simp only [layer] at environments suppressions
  simp only [layer, environments, suppressions, Bool.and_assoc,
    Entries.layer_assoc distinct.rules distinct'.rules,
    Entries.layer_assoc distinct.globals distinct'.globals,
    Entries.layer_assoc distinct.decorators distinct'.decorators]

end Config

end TemplateLint
