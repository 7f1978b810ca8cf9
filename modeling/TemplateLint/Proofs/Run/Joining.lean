import Mathlib.Data.List.Nodup
import TemplateLint.Proofs.Entries
import TemplateLint.Run.Results

/-!
# Joining names and values

Adding names where they are new (`Results.addNames`) is associative (`addNames_addNames`), and so is
joining values to those kept under the same name (`Results.combine`), if the values are joined by an
associative operation (`combine_assoc`).
-/

namespace TemplateLint.Results

/-! ## Names -/

@[simp]
theorem addNames_none (base : List String) : addNames base [] = base := rfl

theorem addNames_cons (base : List String) (name : String) (rest : List String) :
    addNames base (name :: rest)
      = addNames (if name ∈ base then base else base ++ [name]) rest := by
  simp only [addNames, List.foldl_cons, List.contains_iff_mem]

theorem addNames_append (base first second : List String) :
    addNames base (first ++ second) = addNames (addNames base first) second :=
  List.foldl_append

theorem mem_addNames {base added : List String} {name : String} :
    name ∈ addNames base added ↔ name ∈ base ∨ name ∈ added := by
  induction added generalizing base with
  | nil => simp [addNames]
  | cons first rest ih =>
    rw [addNames_cons, ih, List.mem_cons]
    split <;> grind

theorem nodup_addNames {base : List String} (distinct : base.Nodup) (added : List String) :
    (addNames base added).Nodup := by
  induction added generalizing base with
  | nil => exact distinct
  | cons name rest ih =>
    rw [addNames_cons]
    refine ih ?_
    split
    · exact distinct
    · exact List.nodup_append.2 ⟨distinct, List.nodup_singleton name, by grind⟩

theorem addNames_addNames (first second third : List String) :
    addNames first (addNames second third) = addNames (addNames first second) third := by
  induction third generalizing second with
  | nil => rfl
  | cons name rest ih =>
    rw [addNames_cons, ih, addNames_cons]
    congr 1
    by_cases known : name ∈ second
    · rw [if_pos known, if_pos (mem_addNames.2 (.inr known))]
    · rw [if_neg known, addNames_append, addNames_cons]
      rfl

theorem addNames_nil (names : List String) : addNames [] names = names.eraseDups := by
  have loop : ∀ base : List String,
      List.eraseDupsBy.loop (· == ·) names base.reverse = addNames base names := by
    induction names with
    | nil => exact List.reverse_reverse
    | cons name rest ih =>
      intro base
      rw [addNames_cons, List.eraseDupsBy.loop]
      by_cases known : name ∈ base
      · have seen : base.reverse.any (name == ·) = true := by simpa using known
        rw [seen, if_pos known]
        exact ih base
      · have unseen : base.reverse.any (name == ·) = false := by
          simpa [Bool.eq_false_iff] using known
        rw [unseen, if_neg known]
        simpa using ih (base ++ [name])
  exact (loop []).symm

/-! ## Values by name -/

section Combine

variable {α : Type} (join : α → α → α)

/-- The value of a name after entries have been joined to it. -/
def joined (name : String) (value : Option α) (added : Entries α) : Option α :=
  added.foldl (fun value entry =>
    if name = entry.1 then some (value.elim entry.2 (join · entry.2)) else value) value

theorem combine_cons (base : Entries α) (name : String) (value : α) (rest : Entries α) :
    combine join base ((name, value) :: rest)
      = combine join (base.set name ((base.find? name).elim value (join · value))) rest := by
  refine congrArg (fun value => combine join (base.set name value) rest) ?_
  cases base.find? name <;> rfl

theorem names_combine (base added : Entries α) :
    (combine join base added).names = addNames base.names added.names := by
  induction added generalizing base with
  | nil => rfl
  | cons entry rest ih =>
    have names_cons : Entries.names (entry :: rest) = entry.1 :: Entries.names rest := rfl
    rw [combine_cons, ih, Entries.names_set, names_cons, addNames_cons]

theorem nodup_names_combine {base : Entries α} (distinct : base.names.Nodup)
    (added : Entries α) : (combine join base added).names.Nodup :=
  names_combine join base added ▸ nodup_addNames distinct _

theorem find?_combine (base added : Entries α) (name : String) :
    (combine join base added).find? name = joined join name (base.find? name) added := by
  induction added generalizing base with
  | nil => rfl
  | cons entry rest ih =>
    rw [combine_cons, ih, Entries.find?_set, joined, joined, List.foldl_cons]
    by_cases same : name = entry.1
    · rw [if_pos same, if_pos same, same]
    · rw [if_neg same, if_neg same]

theorem joined_of_not_mem {added : Entries α} {name : String} (absent : name ∉ added.names)
    (value : Option α) : joined join name value added = value := by
  induction added generalizing value with
  | nil => rfl
  | cons entry rest ih =>
    obtain ⟨other, later⟩ := not_or.1 (mt List.mem_cons.2 absent)
    rw [joined, List.foldl_cons, if_neg other]
    exact ih later value

theorem joined_of_nodup {added : Entries α} (distinct : added.names.Nodup) (name : String)
    (value : Option α) :
    joined join name value added = Option.merge join value (added.find? name) := by
  induction added generalizing value with
  | nil => cases value <;> rfl
  | cons entry rest ih =>
    obtain ⟨fresh, others⟩ := List.nodup_cons.1 distinct
    rw [joined, List.foldl_cons, ← joined, Entries.find?_cons]
    by_cases same : name = entry.1
    · subst same
      rw [if_pos rfl, if_pos rfl, joined_of_not_mem join fresh]
      cases value <;> rfl
    · rw [if_neg same, if_neg same, ih others]

variable (assoc : ∀ first second third, join (join first second) third
  = join first (join second third))

include assoc

theorem merge_joined (name : String) (first second : Option α) (added : Entries α) :
    Option.merge join first (joined join name second added)
      = joined join name (Option.merge join first second) added := by
  induction added generalizing second with
  | nil => rfl
  | cons entry rest ih =>
    rw [joined, joined, List.foldl_cons, List.foldl_cons, ← joined, ← joined, ih]
    congr 1
    split
    · cases first <;> cases second <;> simp [assoc]
    · rfl

/-- Tables are joined in any grouping. -/
theorem combine_assoc {first second : Entries α} (distinct : first.names.Nodup)
    (distinct' : second.names.Nodup) (third : Entries α) :
    combine join (combine join first second) third
      = combine join first (combine join second third) := by
  have left := nodup_names_combine join (nodup_names_combine join distinct second) third
  refine Entries.ext_find? left ?_ fun name => ?_
  · simp only [names_combine, addNames_addNames]
  · have right := nodup_names_combine join distinct' third
    rw [find?_combine, find?_combine, joined_of_nodup join distinct', find?_combine,
      joined_of_nodup join right, find?_combine, merge_joined join assoc]

end Combine

end TemplateLint.Results
