import TemplateLint.Entries

/-!
# Looking up names

Entries with distinct names are a dictionary: a name has the value it is listed with
(`Entries.find?_eq_some_iff`), in whatever order they come (`Entries.find?_perm`), and in a layer
its added value counts (`Entries.find?_layer`).
-/

namespace TemplateLint.Entries

variable {α : Type}

@[simp]
theorem find?_nil (name : String) : find? ([] : Entries α) name = none := rfl

theorem find?_cons (key : String) (value : α) (rest : Entries α) (name : String) :
    find? ((key, value) :: rest) name = if name = key then some value else find? rest name := by
  unfold find?
  rw [List.lookup_cons]
  by_cases same : name = key
  · simp [same]
  · have unlike : (name == key) = false := by simpa using same
    rw [unlike, if_neg same]

theorem find?_set (name : String) (value : α) (entries : Entries α) (other : String) :
    (set name value entries).find? other
      = if other = name then some value else entries.find? other := by
  induction entries with
  | nil => exact find?_cons name value [] other
  | cons entry rest ih =>
    obtain ⟨key, old⟩ := entry
    rw [set]
    by_cases known : key = name
    · subst known
      by_cases asked : other = key <;> simp [find?_cons, asked]
    · have later : (key == name) = false := by simpa using known
      simp only [later, Bool.false_eq_true, if_false, find?_cons, ih]
      by_cases asked : other = key
      · have unlike : other ≠ name := fun same => known (asked.symm.trans same)
        simp only [if_pos asked, if_neg unlike]
      · simp only [if_neg asked]

theorem find?_eq_some_iff {entries : Entries α} (distinct : entries.names.Nodup) {name : String}
    {value : α} : entries.find? name = some value ↔ (name, value) ∈ entries := by
  induction entries with
  | nil => simp
  | cons entry rest ih =>
    obtain ⟨key, first⟩ := entry
    obtain ⟨fresh, others⟩ := List.nodup_cons.1 distinct
    rw [find?_cons, List.mem_cons, Prod.mk.injEq]
    by_cases same : name = key
    · subst same
      have absent : (name, value) ∉ rest := fun member => fresh (List.mem_map.2 ⟨_, member, rfl⟩)
      simp [absent, eq_comm]
    · simp [same, ih others]

/-- If names are distinct, the order of entries does not matter to what is found. -/
theorem find?_perm {entries others : Entries α} (distinct : entries.names.Nodup)
    (perm : others.Perm entries) (name : String) : others.find? name = entries.find? name := by
  have distinct' : others.names.Nodup := (perm.map Prod.fst).nodup_iff.2 distinct
  apply Option.ext
  intro value
  rw [find?_eq_some_iff distinct, find?_eq_some_iff distinct', perm.mem_iff]

/-- Of several added values for a name the last one counts. -/
theorem find?_layer_reverse (base added : Entries α) (name : String) :
    (base.layer added).find? name = (find? added.reverse name).or (base.find? name) := by
  induction added generalizing base with
  | nil => rfl
  | cons entry rest ih =>
    have last : find? (entry :: rest).reverse name
        = (find? rest.reverse name).or (find? [entry] name) := by
      rw [List.reverse_cons]
      exact List.lookup_append
    rw [layer, List.foldl_cons, ← layer, ih, find?_set, last, Option.or_assoc, find?_cons]
    split <;> rfl

/-- What is added counts before what was there. -/
theorem find?_layer {base added : Entries α} (distinct : added.names.Nodup) (name : String) :
    (base.layer added).find? name = (added.find? name).or (base.find? name) := by
  rw [find?_layer_reverse, find?_perm distinct (List.reverse_perm added)]

/-! ## Names -/

theorem names_set (name : String) (value : α) (entries : Entries α) :
    (set name value entries).names
      = if name ∈ entries.names then entries.names else entries.names ++ [name] := by
  induction entries with
  | nil => rfl
  | cons entry rest ih =>
    obtain ⟨key, old⟩ := entry
    rw [set]
    by_cases known : key = name
    · subst known
      simp [names]
    · have later : (key == name) = false := by simpa using known
      have names_cons : ∀ value (others : Entries α),
          names ((key, value) :: others) = key :: others.names := fun _ _ => rfl
      rw [later, if_neg Bool.false_ne_true, names_cons, names_cons, ih]
      simp only [List.mem_cons, Ne.symm known, false_or]
      split <;> rfl

theorem set_of_not_mem {entries : Entries α} {name : String} (absent : name ∉ entries.names)
    (value : α) : set name value entries = entries ++ [(name, value)] := by
  induction entries with
  | nil => rfl
  | cons entry rest ih =>
    have other : (entry.1 == name) = false := by
      simpa using (List.ne_of_not_mem_cons absent).symm
    rw [set, other, if_neg Bool.false_ne_true, ih (List.not_mem_of_not_mem_cons absent)]
    rfl

theorem set_append_cons {before : Entries α} {name : String} (absent : name ∉ before.names)
    (old value : α) (after : Entries α) :
    set name value (before ++ (name, old) :: after) = before ++ (name, value) :: after := by
  induction before with
  | nil => rw [List.nil_append, set, beq_self_eq_true, if_pos rfl, List.nil_append]
  | cons entry rest ih =>
    have other : (entry.1 == name) = false := by
      simpa using (List.ne_of_not_mem_cons absent).symm
    rw [List.cons_append, set, other, if_neg Bool.false_ne_true,
      ih (List.not_mem_of_not_mem_cons absent)]
    rfl

theorem layer_of_disjoint {base added : Entries α} (distinct : (base ++ added).names.Nodup) :
    base.layer added = base ++ added := by
  induction added generalizing base with
  | nil => exact (List.append_nil base).symm
  | cons entry rest ih =>
    have apart : base ++ entry :: rest = (base ++ [entry]) ++ rest := List.append_cons ..
    have fresh : entry.1 ∉ base.names := by
      rw [names, List.map_append, List.nodup_append] at distinct
      exact fun member => distinct.2.2 _ member _ (.head _) rfl
    rw [layer, List.foldl_cons, set_of_not_mem fresh, apart]
    exact ih (apart ▸ distinct)

theorem find?_eq_none_iff {entries : Entries α} {name : String} :
    entries.find? name = none ↔ name ∉ entries.names := by
  induction entries with
  | nil => simp [names]
  | cons entry rest ih =>
    obtain ⟨key, value⟩ := entry
    have names_cons : names ((key, value) :: rest) = key :: names rest := rfl
    rw [find?_cons, names_cons, List.mem_cons, not_or, ← ih]
    by_cases same : name = key <;> simp [same]

theorem ext_find? {entries others : Entries α} (distinct : entries.names.Nodup)
    (sameNames : entries.names = others.names)
    (sameValues : ∀ name, entries.find? name = others.find? name) : entries = others := by
  induction entries generalizing others with
  | nil => exact (List.map_eq_nil_iff.1 sameNames.symm).symm
  | cons entry rest ih =>
    obtain ⟨key, value⟩ := entry
    obtain ⟨⟨key', value'⟩, rest', rfl, sameKey, sameRest⟩ :=
      List.map_eq_cons_iff.1 sameNames.symm
    obtain rfl : key' = key := sameKey
    obtain ⟨fresh, distinct⟩ := List.nodup_cons.1 distinct
    have here := sameValues key'
    rw [find?_cons, find?_cons, if_pos rfl, if_pos rfl, Option.some.injEq] at here
    rw [here, ih distinct sameRest.symm fun name => ?_]
    by_cases same : name = key'
    · subst same
      have absent : find? rest name = none := find?_eq_none_iff.2 fresh
      have absent' : find? rest' name = none :=
        find?_eq_none_iff.2 fun member => fresh (sameRest ▸ member)
      rw [absent, absent']
    · have there := sameValues name
      rwa [find?_cons, find?_cons, if_neg same, if_neg same] at there

end TemplateLint.Entries
