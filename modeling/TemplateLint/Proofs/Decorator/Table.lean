import TemplateLint.Decorator.Standard
import TemplateLint.Proofs.Config.Layers

/-!
# Decorator tables

What an entry of a decorator table says (`Describes`) and what is wrong with one that says nothing
(`Malformed`) are stated on their own, and reading an entry agrees with both
(`readEntry_eq_ok_iff`, `readEntry_eq_error_iff`). A table is read as a whole or not at all
(`readEntries_eq_error_iff`).
-/

namespace TemplateLint

/-! ## Steps that may fail -/

section Outcomes

variable {ε α β : Type}

theorem bind_eq_ok_iff {outcome : Except ε α} {next : α → Except ε β} {value : β} :
    (outcome >>= next) = .ok value ↔ ∃ first, outcome = .ok first ∧ next first = .ok value := by
  cases outcome with
  | error fault => simp [bind, Except.bind]
  | ok first => simp [bind, Except.bind]

theorem guard_eq_ok_iff {refused : Prop} [Decidable refused] {fault : ε} {next : α → Except ε β}
    {outcome : Except ε β} {value : β} :
    (if refused then throw fault >>= next else outcome) = .ok value
      ↔ ¬ refused ∧ outcome = .ok value := by
  by_cases holds : refused <;> simp [holds, bind, Except.bind, throw, throwThe, MonadExceptOf.throw]

theorem exists_eq_error_iff {outcome : Except ε α} :
    (∃ fault, outcome = .error fault) ↔ ∀ value, outcome ≠ .ok value := by
  cases outcome <;> simp

theorem no_unknown_iff {names known : List String} :
    ¬ (!(names.filter fun key => !known.contains key).isEmpty) = true
      ↔ ∀ key ∈ names, key ∈ known := by
  simp

theorem exists_of_isOk {outcome : Except ε α} (succeeds : outcome.isOk = true) :
    ∃ value, outcome = .ok value := by
  cases outcome with
  | error fault => cases succeeds
  | ok value => exact ⟨value, rfl⟩

end Outcomes

namespace Decorator

open TemplateLint.Text

/-! ## What entries say -/

/-- The members of an entry. Null and `true` stand for an entry without any. -/
inductive HasMembers : Json → Entries Json → Prop where
  | null : HasMembers .null []
  | flag : HasMembers (.bool true) []
  | object (members : Entries Json) : HasMembers (.object members) members

/-- The text that a member of an entry gives: none if it is missing or null. -/
inductive GivesText : Option Json → Option String → Prop where
  | missing : GivesText none none
  | null : GivesText (some .null) none
  | text (value : String) : GivesText (some (.text value)) (some value)

/-- The flag that a member of an entry gives: true if it is missing. -/
inductive GivesFlag : Option Json → Bool → Prop where
  | missing : GivesFlag none true
  | flag (value : Bool) : GivesFlag (some (.bool value)) value

/-- An entry of a table gives a decorator its specification. -/
structure Describes (name : String) (entry : Json) (spec : Spec) : Prop where
  identifier : isIdentifier name = true
  members : ∃ members, HasMembers entry members
    ∧ (∀ key ∈ members.names, key ∈ entryKeys)
    ∧ GivesFlag (members.find? "global") spec.isGlobal
    ∧ (spec.impliesBase = true ↔ "inherits" ∈ members.names)
    ∧ GivesText (members.find? "inherits") spec.inherits?
    ∧ GivesText (members.find? "module") spec.source?
    ∧ GivesText (members.find? "export") spec.exported?

def textKeys : List String := ["inherits", "module", "export"]

/-- An entry that says nothing: its name is no identifier, it has no members, or one of its
members is unknown or of the wrong type. -/
inductive Malformed (name : String) : Json → Prop where
  | name {entry : Json} (bad : isIdentifier name = false) : Malformed name entry
  | entry {entry : Json} (bad : ∀ members, ¬ HasMembers entry members) : Malformed name entry
  | key {entry : Json} {members : Entries Json} (has : HasMembers entry members) {key : String}
      (member : key ∈ members.names) (unknown : key ∉ entryKeys) : Malformed name entry
  | text {entry : Json} {members : Entries Json} (has : HasMembers entry members) {key : String}
      (textual : key ∈ textKeys) (bad : ∀ text, ¬ GivesText (members.find? key) text) :
      Malformed name entry
  | flag {entry : Json} {members : Entries Json} (has : HasMembers entry members)
      (bad : ∀ flag, ¬ GivesFlag (members.find? "global") flag) : Malformed name entry

/-! ## Reading entries -/

theorem entryMembers_eq_ok_iff {name : String} {entry : Json} {members : Entries Json} :
    entryMembers name entry = .ok members ↔ HasMembers entry members := by
  constructor
  · intro read
    unfold entryMembers at read
    split at read
    · cases read; exact .null
    · cases read; exact .flag
    · cases read; exact .object _
    · cases read
  · rintro (_ | _ | _) <;> rfl

theorem textMember_eq_ok_iff {name key : String} {members : Entries Json} {text : Option String} :
    textMember name key members = .ok text ↔ GivesText (members.find? key) text := by
  unfold textMember
  constructor
  · intro read
    split at read
    next missing => cases read; exact missing ▸ .missing
    next null => cases read; exact null ▸ .null
    next given => cases read; exact given ▸ .text _
    next => cases read
  · intro gives
    generalize members.find? key = given at gives
    cases gives <;> rfl

theorem globalMember_eq_ok_iff {name : String} {members : Entries Json} {flag : Bool} :
    globalMember name members = .ok flag ↔ GivesFlag (members.find? "global") flag := by
  unfold globalMember
  constructor
  · intro read
    split at read
    next missing => cases read; exact missing ▸ .missing
    next given => cases read; exact given ▸ .flag _
    next => cases read
  · intro gives
    generalize members.find? "global" = given at gives
    cases gives <;> rfl

/-- An entry is read as a specification exactly if it describes it. -/
theorem readEntry_eq_ok_iff {name : String} {entry : Json} {spec : Spec} :
    readEntry name entry = .ok spec ↔ Describes name entry spec := by
  have implies : ∀ members : Entries Json,
      members.has "inherits" = true ↔ "inherits" ∈ members.names := by
    intro members
    rw [Entries.has, ← Option.ne_none_iff_isSome, Ne, Entries.find?_eq_none_iff, not_not]
  simp only [readEntry, guard_eq_ok_iff, bind_eq_ok_iff, entryMembers_eq_ok_iff,
    textMember_eq_ok_iff, globalMember_eq_ok_iff, no_unknown_iff]
  constructor
  · rintro ⟨identifier, members, has, keys, inherits, ofInherits, source, ofSource, exported,
      ofExported, isGlobal, ofGlobal, made⟩
    cases made
    exact ⟨by simpa using identifier, members, has, keys, ofGlobal, implies members, ofInherits,
      ofSource, ofExported⟩
  · rintro ⟨identifier, members, has, keys, ofGlobal, base, ofInherits, ofSource, ofExported⟩
    refine ⟨by simp [identifier], members, has, keys, _, ofInherits, _, ofSource, _, ofExported, _,
      ofGlobal, ?_⟩
    rw [Bool.eq_iff_iff.2 ((implies members).trans base.symm)]
    rfl

/-! ## Entries without a meaning -/

theorem HasMembers.unique {entry : Json} {first second : Entries Json}
    (one : HasMembers entry first) (two : HasMembers entry second) : first = second := by
  cases one <;> cases two <;> rfl

/-- An entry is refused exactly if it is malformed. -/
theorem readEntry_eq_error_iff {name : String} {entry : Json} :
    (∃ fault, readEntry name entry = .error fault) ↔ Malformed name entry := by
  simp only [exists_eq_error_iff, Ne, readEntry_eq_ok_iff]
  constructor
  · intro silent
    -- an entry without any of the faults describes a decorator
    by_contra wellFormed
    have identifier : isIdentifier name = true := by
      by_contra bad
      exact wellFormed (.name (Bool.eq_false_iff.2 bad))
    obtain ⟨members, has⟩ : ∃ members, HasMembers entry members := by
      by_contra bad
      exact wellFormed (.entry (not_exists.1 bad))
    have keys : ∀ key ∈ members.names, key ∈ entryKeys := by
      intro key member
      by_contra unknown
      exact wellFormed (.key has member unknown)
    have text : ∀ key ∈ textKeys, ∃ text, GivesText (members.find? key) text := by
      intro key textual
      by_contra bad
      exact wellFormed (.text has textual (not_exists.1 bad))
    obtain ⟨isGlobal, ofGlobal⟩ : ∃ flag, GivesFlag (members.find? "global") flag := by
      by_contra bad
      exact wellFormed (.flag has (not_exists.1 bad))
    obtain ⟨inherits?, ofInherits⟩ := text "inherits" (by decide)
    obtain ⟨source?, ofSource⟩ := text "module" (by decide)
    obtain ⟨exported?, ofExported⟩ := text "export" (by decide)
    exact silent ⟨isGlobal, decide ("inherits" ∈ members.names), inherits?, source?, exported?⟩
      ⟨identifier, members, has, keys, ofGlobal, decide_eq_true_iff, ofInherits, ofSource,
        ofExported⟩
  · rintro malformed spec ⟨identifier, members, has, keys, ofGlobal, -, ofInherits, ofSource,
      ofExported⟩
    cases malformed with
    | name bad => exact Bool.false_ne_true (bad.symm.trans identifier)
    | entry bad => exact bad members has
    | key has' member unknown =>
      obtain rfl := has.unique has'
      exact unknown (keys _ member)
    | text has' textual bad =>
      obtain rfl := has.unique has'
      simp only [textKeys, List.mem_cons, List.not_mem_nil, or_false] at textual
      obtain rfl | rfl | rfl := textual
      · exact bad _ ofInherits
      · exact bad _ ofSource
      · exact bad _ ofExported
    | flag has' bad =>
      obtain rfl := has.unique has'
      exact bad _ ofGlobal

/-! ## Reading tables -/

namespace Registry

theorem readEntries_cons_eq_ok_iff {name : String} {entry : Json} {rest : Entries Json}
    {specs : Entries Spec} :
    readEntries ((name, entry) :: rest) = .ok specs ↔ ∃ spec others,
      readEntry name entry = .ok spec ∧ readEntries rest = .ok others
        ∧ specs = (name, spec) :: others := by
  simp only [readEntries, bind_eq_ok_iff]
  constructor
  · rintro ⟨spec, read, others, reads, made⟩
    cases made
    exact ⟨spec, others, read, reads, rfl⟩
  · rintro ⟨spec, others, read, reads, rfl⟩
    exact ⟨spec, read, others, reads, rfl⟩

/-- A table is refused exactly if one of its entries is malformed. -/
theorem readEntries_eq_error_iff {table : Entries Json} :
    (∃ fault, readEntries table = .error fault)
      ↔ ∃ entry ∈ table, Malformed entry.1 entry.2 := by
  simp only [exists_eq_error_iff, ← readEntry_eq_error_iff]
  induction table with
  | nil => simp [readEntries]
  | cons entry rest ih =>
    obtain ⟨name, value⟩ := entry
    simp only [List.exists_mem_cons_iff, ← ih, Ne, readEntries_cons_eq_ok_iff]
    constructor
    · intro fails
      by_contra both
      obtain ⟨reads, others⟩ := not_or.1 both
      obtain ⟨spec, read⟩ := not_forall_not.1 reads
      obtain ⟨specs, reads⟩ := not_forall_not.1 others
      exact fails _ ⟨spec, specs, read, reads, rfl⟩
    · rintro (here | later) specs ⟨spec, others, read, reads, -⟩
      · exact here spec read
      · exact later others reads

theorem exists_readEntries {table : Entries Json} (distinct : table.names.Nodup)
    (wellFormed : ∀ name entry, table.find? name = some entry → ¬ Malformed name entry) :
    ∃ specs, readEntries table = .ok specs := by
  cases read : readEntries table with
  | ok specs => exact ⟨specs, rfl⟩
  | error fault =>
    obtain ⟨entry, member, malformed⟩ := readEntries_eq_error_iff.1 ⟨fault, read⟩
    exact absurd malformed
      (wellFormed entry.1 entry.2 ((Entries.find?_eq_some_iff distinct).2 member))

theorem names_of_readEntries {table : Entries Json} {specs : Entries Spec}
    (read : readEntries table = .ok specs) : specs.names = table.names := by
  induction table generalizing specs with
  | nil =>
    cases read
    rfl
  | cons entry rest ih =>
    obtain ⟨spec, others, -, reads, rfl⟩ := readEntries_cons_eq_ok_iff.1 read
    exact congrArg (entry.1 :: ·) (ih reads)

theorem find?_of_readEntries {table : Entries Json} {specs : Entries Spec}
    (read : readEntries table = .ok specs) (name : String) :
    specs.find? name = (table.find? name).bind fun entry => (readEntry name entry).toOption := by
  induction table generalizing specs with
  | nil =>
    cases read
    rfl
  | cons entry rest ih =>
    obtain ⟨spec, others, here, reads, rfl⟩ := readEntries_cons_eq_ok_iff.1 read
    rw [Entries.find?_cons, Entries.find?_cons, ih reads]
    by_cases same : name = entry.1
    · subst same
      simp [here, Except.toOption]
    · simp [same]

/-- Tables that can be read may be laid over one another before they are read or afterwards. -/
theorem readEntries_layer {base added : Entries Json} (distinct : base.names.Nodup)
    (distinct' : added.names.Nodup) {specs more : Entries Spec}
    (read : readEntries base = .ok specs) (read' : readEntries added = .ok more) :
    readEntries (base.layer added) = .ok (specs.layer more) := by
  have merged := Entries.nodup_names_layer distinct added
  cases whole : readEntries (base.layer added) with
  | error fault =>
    obtain ⟨entry, member, malformed⟩ := readEntries_eq_error_iff.1 ⟨fault, whole⟩
    have found := (Entries.find?_eq_some_iff merged).2 member
    rw [Entries.find?_layer distinct', Option.or_eq_some_iff] at found
    obtain above | ⟨-, below⟩ := found
    · obtain ⟨fault, fails⟩ := readEntries_eq_error_iff.2
        ⟨entry, (Entries.find?_eq_some_iff distinct').1 above, malformed⟩
      cases read'.symm.trans fails
    · obtain ⟨fault, fails⟩ := readEntries_eq_error_iff.2
        ⟨entry, (Entries.find?_eq_some_iff distinct).1 below, malformed⟩
      cases read.symm.trans fails
  | ok result =>
    refine congrArg Except.ok (Entries.ext_find? ?_ ?_ fun name => ?_)
    · rwa [names_of_readEntries whole]
    · simp only [names_of_readEntries whole, Entries.layer_eq_combine, Results.names_combine,
        names_of_readEntries read, names_of_readEntries read']
    · have spelled : more.names.Nodup := by rwa [names_of_readEntries read']
      have above := find?_of_readEntries read' name
      rw [find?_of_readEntries whole, Entries.find?_layer distinct', Entries.find?_layer spelled,
        find?_of_readEntries read, above]
      cases found : added.find? name with
      | none => rfl
      | some entry =>
        -- The added entry can be read, so the one below does not show.
        rw [found] at above
        cases here : readEntry name entry with
        | error fault =>
          have malformed := readEntry_eq_error_iff.1 ⟨fault, here⟩
          obtain ⟨fault, fails⟩ := readEntries_eq_error_iff.2
            ⟨(name, entry), (Entries.find?_eq_some_iff distinct').1 found, malformed⟩
          cases read'.symm.trans fails
        | ok spec => simp [here, Except.toOption]

/-! ## Layers of registries -/

/-- No decorator is specified twice. -/
def Distinct (registry : Registry) : Prop := registry.specs.names.Nodup

instance (registry : Registry) : Decidable registry.Distinct :=
  inferInstanceAs (Decidable registry.specs.names.Nodup)

theorem distinct_standard : standard.Distinct := by decide

theorem layer_assoc {first second : Registry} (distinct : first.Distinct)
    (distinct' : second.Distinct) (third : Registry) :
    (first.layer second).layer third = first.layer (second.layer third) :=
  congrArg Registry.mk (Entries.layer_assoc distinct distinct' third.specs)

theorem empty_layer {registry : Registry} (distinct : registry.Distinct) :
    empty.layer registry = registry :=
  congrArg Registry.mk (Entries.layer_of_disjoint distinct)

theorem lookup?_layer (base : Registry) {added : Registry} (distinct : added.Distinct)
    (name : String) :
    (base.layer added).lookup? name = (added.lookup? name).or (base.lookup? name) :=
  Entries.find?_layer distinct name

end Registry

end Decorator

end TemplateLint
