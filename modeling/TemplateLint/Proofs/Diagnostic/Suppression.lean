import TemplateLint.Diagnostic.Suppression

/-!
# Suppressions are a set

A store of suppressions holds facts (`SuppressionStore.facts`), and it suppresses a problem if one of
them applies to it (`suppresses_eq_facts`), in whichever of its parts they are kept. Each operation
adds exactly the facts that it states (`mem_facts_register`), so after some calls the facts are those
that one of the calls states (`mem_facts_registerAll`), and **nothing but the set of registered facts
matters** (`suppresses_of_registered_facts`).
-/

namespace TemplateLint.Diagnostic

open TemplateLint.Directive TemplateLint.Text

/-! ## When a fact applies -/

/-- An id stands for a problem: it stands for all, or is the id of the problem, or is the name of
the rule that reports it. -/
def Names (id : String) (diagnostic : Diagnostic) : Prop :=
  id = "*" ∨ id = diagnostic.errorId ∨ diagnostic.rule ≠ "" ∧ id = diagnostic.rule

/-- The files that a pattern covers. -/
def StandsFor (pattern file : String) : Prop :=
  file = pattern ∨ (∃ directory, directory ++ pattern = file) ∨ Glob.fits pattern file = true

namespace Suppression

/-- A fact applies to a problem that its id stands for at its place. -/
def Applies : Suppression → Diagnostic → Prop
  | .everywhere id, diagnostic => Names id diagnostic
  | .inFiles pattern id, diagnostic =>
    Names id diagnostic ∧ StandsFor pattern diagnostic.location.file
  | .onLine file line id, diagnostic =>
    Names id diagnostic ∧ diagnostic.location.file = file ∧ diagnostic.location.line = line

end Suppression

theorem idNames_iff (id : String) (diagnostic : Diagnostic) :
    idNames id diagnostic = true ↔ Names id diagnostic := by
  simp only [idNames, wildcard, Names, Bool.or_eq_true, Bool.and_eq_true, beq_iff_eq,
    Bool.not_eq_true', String.isEmpty_eq_false_iff, or_assoc]

theorem fileMatches_iff (pattern file : String) :
    fileMatches pattern file = true ↔ StandsFor pattern file := by
  have ending : pattern.toList <:+ file.toList ↔ ∃ directory, directory ++ pattern = file := by
    constructor
    · rintro ⟨before, whole⟩
      exact ⟨String.ofList before, String.toList_inj.1 (by simpa using whole)⟩
    · rintro ⟨directory, rfl⟩
      exact ⟨directory.toList, by simp⟩
  simp only [fileMatches, StandsFor, Bool.or_eq_true, beq_iff_eq, List.isSuffixOf_iff_suffix,
    ending, or_assoc, @eq_comm _ pattern]

theorem Suppression.applies_iff (suppression : Suppression) (diagnostic : Diagnostic) :
    suppression.applies diagnostic = true ↔ suppression.Applies diagnostic := by
  cases suppression with
  | everywhere id => exact idNames_iff id diagnostic
  | inFiles pattern id =>
    simp only [applies, Applies, Bool.and_eq_true, idNames_iff, fileMatches_iff]
  | onLine file line id =>
    simp only [applies, Applies, Bool.and_eq_true, beq_iff_eq, idNames_iff, and_assoc,
      @eq_comm _ file, @eq_comm _ line]

/-! ## The facts of a store -/

theorem mem_addIds {known added : List String} {id : String} :
    id ∈ addIds known added ↔ id ∈ known ∨ id ∈ added := by
  induction added generalizing known with
  | nil => simp [addIds]
  | cons first rest ih =>
    rw [addIds, List.foldl_cons, ← addIds, ih, List.mem_insert_iff, List.mem_cons, or_assoc,
      or_left_comm]

namespace IdStore

variable {κ : Type} [DecidableEq κ]

theorem mem_idsAt_cons {key known : κ} {ids : List String} {rest : List (κ × List String)}
    {id : String} :
    id ∈ (((known, ids) :: rest).lookup key).getD []
      ↔ if key = known then id ∈ ids else id ∈ (rest.lookup key).getD [] := by
  rw [List.lookup_cons]
  by_cases same : key = known
  · simp [same]
  · have differ : (key == known) = false := by simpa using same
    simp [differ, same]

/-- An update adds its ids to those of its key and leaves all other keys alone. -/
theorem mem_idsAt_update {store : IdStore κ} {key other : κ} {added : List String} {id : String} :
    id ∈ (store.update key added).idsAt other
      ↔ id ∈ store.idsAt other ∨ key = other ∧ id ∈ added := by
  obtain ⟨entries, distinct⟩ := store
  simp only [idsAt, update]
  clear distinct
  induction entries with
  | nil =>
    rw [updateEntries, mem_idsAt_cons]
    by_cases same : other = key
    · simp [same, mem_addIds]
    · simp [same, Ne.symm same]
  | cons entry rest ih =>
    obtain ⟨known, ids⟩ := entry
    rw [updateEntries]
    by_cases found : known = key
    · subst found
      rw [if_pos rfl, mem_idsAt_cons, mem_idsAt_cons]
      by_cases same : other = known
      · simp [same, mem_addIds]
      · simp [same, Ne.symm same]
    · rw [if_neg found, mem_idsAt_cons, mem_idsAt_cons]
      by_cases same : other = known
      · subst same
        simp [Ne.symm found]
      · rw [if_neg same, if_neg same]
        exact ih

/-- As keys are distinct, the ids of all entries of a key are those that are found for it. -/
theorem mem_idsAt_iff {store : IdStore κ} {key : κ} {id : String} :
    id ∈ store.idsAt key ↔ ∃ ids, (key, ids) ∈ store.entries ∧ id ∈ ids := by
  obtain ⟨entries, distinct⟩ := store
  simp only [idsAt]
  induction entries with
  | nil => simp
  | cons entry rest ih =>
    obtain ⟨known, ids⟩ := entry
    obtain ⟨fresh, others⟩ := List.nodup_cons.1 distinct
    simp only [mem_idsAt_cons, List.mem_cons, Prod.mk.injEq, or_and_right, exists_or, ← ih others]
    by_cases same : key = known
    · subst same
      have none : id ∉ (rest.lookup key).getD [] := by
        rw [ih others]
        rintro ⟨found, listed, _⟩
        exact fresh (List.mem_map.2 ⟨_, listed, rfl⟩)
      simp [none]
    · simp [same]

end IdStore

namespace SuppressionStore

/-- All that is registered. -/
def facts (store : SuppressionStore) : Suppressions :=
  store.global.map .everywhere
    ++ store.fileLevel.entries.flatMap (fun (pattern, ids) => ids.map (.inFiles pattern))
    ++ store.inline.entries.flatMap fun ((file, line), ids) => ids.map (.onLine file line)

section Facts

variable {store : SuppressionStore} {fact : Suppression} {file pattern id : String} {line : Int}

@[simp] theorem mem_facts_everywhere : .everywhere id ∈ store.facts ↔ id ∈ store.global := by
  simp [facts]

@[simp] theorem mem_facts_inFiles :
    .inFiles pattern id ∈ store.facts ↔ id ∈ store.fileLevel.idsAt pattern := by
  simp [facts, IdStore.mem_idsAt_iff, and_left_comm]

@[simp] theorem mem_facts_onLine :
    .onLine file line id ∈ store.facts ↔ id ∈ store.inline.idsAt (file, line) := by
  simp [facts, IdStore.mem_idsAt_iff, and_left_comm]

end Facts

theorem idsName_iff (ids : List String) (diagnostic : Diagnostic) :
    idsName ids diagnostic = true ↔ ∃ id ∈ ids, idNames id diagnostic = true := by
  simp only [idNames_iff, idsName, Names, wildcard, Bool.or_eq_true, Bool.and_eq_true,
    List.contains_iff_mem, Bool.not_eq_true', String.isEmpty_eq_false_iff, or_assoc]
  constructor
  · rintro (all | own | ⟨ruled, byRule⟩)
    · exact ⟨_, all, .inl rfl⟩
    · exact ⟨_, own, .inr (.inl rfl)⟩
    · exact ⟨_, byRule, .inr (.inr ⟨ruled, rfl⟩)⟩
  · rintro ⟨id, listed, rfl | rfl | ⟨ruled, rfl⟩⟩
    · exact .inl listed
    · exact .inr (.inl listed)
    · exact .inr (.inr ⟨ruled, listed⟩)

/-- **A problem is suppressed if a fact of the store applies to it.** -/
theorem suppresses_eq_facts (store : SuppressionStore) (diagnostic : Diagnostic) :
    store.suppresses diagnostic = store.facts.suppresses diagnostic := by
  rw [Bool.eq_iff_iff]
  simp only [suppresses, Suppressions.suppresses, Bool.or_eq_true, List.any_eq_true, idsName_iff,
    Bool.and_eq_true]
  constructor
  · rintro ((⟨id, listed, named⟩ | ⟨id, listed, named⟩) | ⟨⟨pattern, ids⟩, entry, ⟨id, listed, named⟩,
      fits⟩)
    · exact ⟨_, mem_facts_everywhere.2 listed, named⟩
    · exact ⟨_, mem_facts_onLine.2 listed, by simp [Suppression.applies, named]⟩
    · refine ⟨_, mem_facts_inFiles.2 (IdStore.mem_idsAt_iff.2 ⟨ids, entry, listed⟩), ?_⟩
      rw [Suppression.applies, named, fits, Bool.true_and]
  · rintro ⟨fact, held, applies⟩
    cases fact with
    | everywhere id => exact .inl (.inl ⟨id, mem_facts_everywhere.1 held, applies⟩)
    | inFiles pattern id =>
      obtain ⟨ids, entry, listed⟩ := IdStore.mem_idsAt_iff.1 (mem_facts_inFiles.1 held)
      obtain ⟨named, fits⟩ := Bool.and_eq_true _ _ ▸ applies
      exact .inr ⟨(pattern, ids), entry, ⟨id, listed, named⟩, fits⟩
    | onLine file line id =>
      simp only [Suppression.applies, Bool.and_eq_true, beq_iff_eq] at applies
      obtain ⟨⟨named, rfl⟩, rfl⟩ := applies
      exact .inl (.inr ⟨id, mem_facts_onLine.1 held, named⟩)

end SuppressionStore

/-! ## Registering facts -/

/-- One call that registers suppressions. -/
inductive Registration where
  | everywhere (id : String)
  | inFiles (id pattern : String)
  | ofFile (file : String) (directives : Directives)

/-- The facts that one registration states. -/
inductive Registration.States : Registration → Suppression → Prop where
  | everywhere (id : String) : States (.everywhere id) (.everywhere id)
  | inFiles (id pattern : String) : States (.inFiles id pattern) (.inFiles pattern id)
  | line {file : String} {directives : Directives} {line : Nat} {ids : List String} {id : String}
      (listed : (line, ids) ∈ directives.lines) (named : id ∈ ids) :
      States (.ofFile file directives) (.onLine file line id)
  | file {file : String} {directives : Directives} {id : String} (named : id ∈ directives.file) :
      States (.ofFile file directives) (.inFiles file id)

/-- The facts that some of the calls state. -/
def Registered (calls : List Registration) (fact : Suppression) : Prop :=
  ∃ call ∈ calls, call.States fact

theorem mem_ofDirectives {file : String} {directives : Directives} {fact : Suppression} :
    fact ∈ Suppressions.ofDirectives file directives
      ↔ (Registration.ofFile file directives).States fact := by
  simp only [Suppressions.ofDirectives, List.mem_append, List.mem_flatMap, List.mem_map]
  constructor
  · rintro (⟨⟨line, ids⟩, listed, id, named, rfl⟩ | ⟨id, named, rfl⟩)
    · exact .line listed named
    · exact .file named
  · rintro (_ | _ | ⟨listed, named⟩ | named)
    · exact .inl ⟨_, listed, _, named, rfl⟩
    · exact .inr ⟨_, named, rfl⟩

namespace SuppressionStore

/-- What a call does to the store. -/
def register (store : SuppressionStore) : Registration → SuppressionStore
  | .everywhere id => store.addGlobal id
  | .inFiles id pattern => store.addInFiles id pattern
  | .ofFile file directives => store.loadDirectives file directives

/-- The store after all calls, one after the other. -/
def registerAll (calls : List Registration) : SuppressionStore := calls.foldl register .empty

section Register

variable {store : SuppressionStore} {fact : Suppression}

theorem mem_facts_addGlobal {id : String} :
    fact ∈ (store.addGlobal id).facts ↔ fact ∈ store.facts ∨ fact = .everywhere id := by
  cases fact with
  | everywhere other => simp [addGlobal, List.mem_insert_iff, or_comm]
  | _ => simp [addGlobal]

theorem mem_facts_addInFiles {id pattern : String} :
    fact ∈ (store.addInFiles id pattern).facts ↔ fact ∈ store.facts ∨ fact = .inFiles pattern id := by
  cases fact with
  | inFiles other known => simp [addInFiles, IdStore.mem_idsAt_update, @eq_comm _ pattern]
  | _ => simp [addInFiles]

/-- The lines of a file are registered one after another, each under its own key. -/
theorem mem_idsAt_lines {inline : IdStore (String × Int)} {lines : List (Nat × List String)}
    {file id : String} {key : String × Int} :
    id ∈ (lines.foldl (fun inline (line, ids) => inline.update (file, line) ids) inline).idsAt key
      ↔ id ∈ inline.idsAt key ∨ ∃ line ids, (line, ids) ∈ lines ∧ (file, ↑line) = key ∧ id ∈ ids := by
  induction lines generalizing inline with
  | nil => simp
  | cons first rest ih =>
    rw [List.foldl_cons, ih, IdStore.mem_idsAt_update, or_assoc]
    refine or_congr_right ⟨?_, ?_⟩
    · rintro (⟨same, named⟩ | ⟨line, ids, listed, same, named⟩)
      · exact ⟨first.1, first.2, .head _, same, named⟩
      · exact ⟨line, ids, .tail _ listed, same, named⟩
    · rintro ⟨line, ids, listed, same, named⟩
      rcases List.mem_cons.1 listed with rfl | later
      · exact .inl ⟨same, named⟩
      · exact .inr ⟨line, ids, later, same, named⟩

theorem mem_facts_loadDirectives {file : String} {directives : Directives} :
    fact ∈ (store.loadDirectives file directives).facts
      ↔ fact ∈ store.facts ∨ fact ∈ Suppressions.ofDirectives file directives := by
  have inFile : ∀ pattern id, id ∈ (store.loadDirectives file directives).fileLevel.idsAt pattern
      ↔ id ∈ store.fileLevel.idsAt pattern ∨ file = pattern ∧ id ∈ directives.file := by
    intro pattern id
    simp only [loadDirectives]
    split
    · next none => simp [List.isEmpty_iff.1 none]
    · exact IdStore.mem_idsAt_update
  rw [mem_ofDirectives]
  cases fact with
  | everywhere id =>
    rw [mem_facts_everywhere, mem_facts_everywhere]
    exact ⟨.inl, fun held => held.resolve_right nofun⟩
  | inFiles pattern id =>
    rw [mem_facts_inFiles, mem_facts_inFiles, inFile]
    refine or_congr_right ⟨?_, ?_⟩
    · rintro ⟨rfl, named⟩
      exact .file named
    · intro states
      cases states with
      | file named => exact ⟨rfl, named⟩
  | onLine other line id =>
    rw [mem_facts_onLine, mem_facts_onLine, loadDirectives, mem_idsAt_lines]
    refine or_congr_right ⟨?_, ?_⟩
    · rintro ⟨line, ids, listed, same, named⟩
      cases same
      exact .line listed named
    · intro states
      cases states with
      | line listed named => exact ⟨_, _, listed, rfl, named⟩

/-- **A call adds exactly the facts that it states.** -/
theorem mem_facts_register {call : Registration} :
    fact ∈ (store.register call).facts ↔ fact ∈ store.facts ∨ call.States fact := by
  cases call with
  | everywhere id =>
    have stated : (Registration.everywhere id).States fact ↔ fact = .everywhere id :=
      ⟨fun states => by cases states; rfl, fun same => same ▸ .everywhere id⟩
    rw [register, mem_facts_addGlobal, stated]
  | inFiles id pattern =>
    have stated : (Registration.inFiles id pattern).States fact ↔ fact = .inFiles pattern id :=
      ⟨fun states => by cases states; rfl, fun same => same ▸ .inFiles id pattern⟩
    rw [register, mem_facts_addInFiles, stated]
  | ofFile file directives => rw [register, mem_facts_loadDirectives, mem_ofDirectives]

theorem mem_facts_foldl_register {calls : List Registration} :
    fact ∈ (calls.foldl register store).facts ↔ fact ∈ store.facts ∨ Registered calls fact := by
  induction calls generalizing store with
  | nil => simp [Registered]
  | cons call rest ih =>
    rw [List.foldl_cons, ih, mem_facts_register, or_assoc]
    simp only [Registered, List.mem_cons, or_and_right, exists_or, exists_eq_left]

/-- The facts that are held are those that some registration states. -/
theorem mem_facts_registerAll {calls : List Registration} :
    fact ∈ (registerAll calls).facts ↔ Registered calls fact := by
  rw [registerAll, mem_facts_foldl_register, or_iff_right]
  cases fact <;> simp [empty, IdStore.empty, IdStore.idsAt]

theorem suppresses_registerAll {calls : List Registration} {diagnostic : Diagnostic} :
    (registerAll calls).suppresses diagnostic = true
      ↔ ∃ fact, Registered calls fact ∧ fact.Applies diagnostic := by
  simp only [suppresses_eq_facts, Suppressions.suppresses, List.any_eq_true, mem_facts_registerAll,
    Suppression.applies_iff]

end Register

end SuppressionStore

instance (calls : List Registration) (diagnostic : Diagnostic) :
    Decidable (∃ fact, Registered calls fact ∧ fact.Applies diagnostic) :=
  decidable_of_iff _ SuppressionStore.suppresses_registerAll

namespace SuppressionStore

/-- **Suppressions are a set.** Calls that state the same facts, in whatever order and however
often, suppress the same problems. A problem that is suppressed stays so after further calls. Of
any problems those remain, in their order, to which no registered fact applies. -/
theorem suppresses_of_registered_facts (calls : List Registration) :
    (∀ others, (∀ fact, Registered calls fact ↔ Registered others fact) →
      ∀ diagnostic, (registerAll calls).suppresses diagnostic
        = (registerAll others).suppresses diagnostic)
    ∧ (∀ more diagnostic, (registerAll calls).suppresses diagnostic = true →
      (registerAll (calls ++ more)).suppresses diagnostic = true)
    ∧ ∀ diagnostics, (registerAll calls).filter diagnostics
      = diagnostics.filter fun diagnostic =>
        ¬ ∃ fact, Registered calls fact ∧ fact.Applies diagnostic := by
  refine ⟨fun others same diagnostic => ?_, fun more diagnostic suppressed => ?_,
    fun diagnostics => ?_⟩
  · rw [Bool.eq_iff_iff, suppresses_registerAll, suppresses_registerAll]
    simp only [same]
  · obtain ⟨fact, ⟨call, listed, states⟩, applies⟩ := suppresses_registerAll.1 suppressed
    exact suppresses_registerAll.2 ⟨fact, ⟨call, List.mem_append_left _ listed, states⟩, applies⟩
  · refine List.filter_congr fun diagnostic _ => ?_
    rw [Bool.eq_iff_iff, Bool.not_eq_true', decide_eq_true_eq, ← suppresses_registerAll,
      Bool.not_eq_true]

def exampleDirectives : Directives := ⟨[], [], [(2, ["no-undef"])], ["no-undef"]⟩

def exampleDiagnostic : Diagnostic :=
  ⟨"undefinedIdentifier", "", .error, ⟨"a.js", 3, 1⟩, "no-undef", ""⟩

/-- A file that suppresses a rule in all of it, and the same said twice more. -/
theorem suppresses_of_registered_facts_repeated :
    (∀ fact, Registered [.ofFile "a.js" exampleDirectives] fact
      ↔ Registered [.inFiles "no-undef" "a.js", .ofFile "a.js" exampleDirectives,
        .inFiles "no-undef" "a.js"] fact)
    ∧ (registerAll [.ofFile "a.js" exampleDirectives]).suppresses exampleDiagnostic
      = (registerAll [.inFiles "no-undef" "a.js", .ofFile "a.js" exampleDirectives,
        .inFiles "no-undef" "a.js"]).suppresses exampleDiagnostic
    ∧ (registerAll ([.ofFile "a.js" exampleDirectives] ++ [.everywhere "*"])).suppresses
      exampleDiagnostic = true := by
  obtain ⟨agree, stays, _⟩ := suppresses_of_registered_facts [.ofFile "a.js" exampleDirectives]
  have again : ∀ fact, (Registration.inFiles "no-undef" "a.js").States fact →
      (Registration.ofFile "a.js" exampleDirectives).States fact := by
    rintro _ ⟨⟩
    exact .file (.head _)
  have same : ∀ fact, Registered [.ofFile "a.js" exampleDirectives] fact
      ↔ Registered [.inFiles "no-undef" "a.js", .ofFile "a.js" exampleDirectives,
        .inFiles "no-undef" "a.js"] fact := by
    intro fact
    constructor
    · rintro ⟨call, listed, states⟩
      exact ⟨call, .tail _ (List.mem_singleton.1 listed ▸ .head _), states⟩
    · rintro ⟨call, listed, states⟩
      refine ⟨_, .head _, ?_⟩
      simp only [List.mem_cons, List.not_mem_nil, or_false] at listed
      rcases listed with rfl | rfl | rfl
      · exact again fact states
      · exact states
      · exact again fact states
  exact ⟨same, agree _ same _, stays _ _ (by decide +kernel)⟩

end SuppressionStore

end TemplateLint.Diagnostic
