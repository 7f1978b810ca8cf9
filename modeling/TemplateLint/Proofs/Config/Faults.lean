import Mathlib.Tactic.MkIffOfInductiveProp
import TemplateLint.Proofs.Decorator.Table
import TemplateLint.Run.Runner

/-!
# Faults of configurations

A JSON value makes a runner, or it is rejected with an error that says what is wrong with it. There
is one more way to fail: a value that can be no name is looked up among the environments
(`FailsByLookup`). Only a list of environments can fail so, if such a value stands in front of any
other unknown one and all else can be read (`runner_or_stated_error_iff`).
-/

namespace TemplateLint

open TemplateLint.Decorator TemplateLint.Diagnostic

/-! ## Kinds of faults -/

/-- What is at fault if no runner can be made of a configuration. -/
inductive FaultKind where
  | configuration
  | table
  /-- The look-up of a value that can be no name, whatever is known. -/
  | lookup
  deriving DecidableEq, Repr

def ConfigError.kind : ConfigError → FaultKind
  | .environment .notAName => .lookup
  | .table _ | .tableUnreadable .. | .tableNotJson _ => .table
  | _ => .configuration

section Outcomes

variable {α β : Type}

/-- An attempt fails because a value is looked up that can be no name. -/
def FailsByLookup (outcome : Except ConfigError α) : Prop :=
  ∃ fault, outcome = .error fault ∧ fault.kind = .lookup

theorem not_failsByLookup_ok (value : α) : ¬ FailsByLookup (.ok value) := by
  rintro ⟨fault, absurd, -⟩
  cases absurd

theorem failsByLookup_error_iff {fault : ConfigError} :
    FailsByLookup (.error fault : Except ConfigError α) ↔ fault.kind = .lookup := by
  constructor
  · rintro ⟨_, same, kind⟩
    cases same
    exact kind
  · exact fun kind => ⟨fault, rfl, kind⟩

theorem not_failsByLookup_error {fault : ConfigError} (stated : fault.kind ≠ .lookup) :
    ¬ FailsByLookup (.error fault : Except ConfigError α) :=
  mt failsByLookup_error_iff.1 stated

theorem failsByLookup_bind_iff {outcome : Except ConfigError α} {next : α → Except ConfigError β}
    (safe : ¬ FailsByLookup outcome) :
    FailsByLookup (outcome >>= next)
      ↔ ∃ value, outcome = .ok value ∧ FailsByLookup (next value) := by
  cases outcome with
  | error fault =>
    refine iff_of_false ?_ ?_
    · rintro ⟨other, same, kind⟩
      cases same
      exact safe ⟨fault, rfl, kind⟩
    · rintro ⟨_, absurd, -⟩
      cases absurd
  | ok value =>
    constructor
    · exact fun fails => ⟨value, rfl, fails⟩
    · rintro ⟨_, same, fails⟩
      cases same
      exact fails

theorem failsByLookup_guard_iff {refused : Prop} [Decidable refused] {fault : ConfigError}
    {next : α → Except ConfigError β} {outcome : Except ConfigError β}
    (stated : fault.kind ≠ .lookup) :
    FailsByLookup (if refused then throw fault >>= next else outcome)
      ↔ ¬ refused ∧ FailsByLookup outcome := by
  by_cases holds : refused
  · rw [if_pos holds]
    exact iff_of_false (not_failsByLookup_error stated) fun both => both.1 holds
  · simp [holds]

theorem not_failsByLookup_bind {outcome : Except ConfigError α} {next : α → Except ConfigError β}
    (safe : ¬ FailsByLookup outcome) (safely : ∀ value, ¬ FailsByLookup (next value)) :
    ¬ FailsByLookup (outcome >>= next) := by
  rw [failsByLookup_bind_iff safe]
  rintro ⟨value, -, fails⟩
  exact safely value fails

theorem not_failsByLookup_mapError {ε : Type} {outcome : Except ε α} {wrap : ε → ConfigError}
    (stated : ∀ fault, (wrap fault).kind ≠ .lookup) : ¬ FailsByLookup (outcome.mapError wrap) := by
  cases outcome with
  | error fault => exact not_failsByLookup_error (stated fault)
  | ok value => exact not_failsByLookup_ok value

theorem failsByLookup_mapM_iff {read : α → Except ConfigError β} {items : List α} :
    FailsByLookup (items.mapM read) ↔ ∃ before item after, items = before ++ item :: after
      ∧ (∀ earlier ∈ before, ∃ value, read earlier = .ok value) ∧ FailsByLookup (read item) := by
  induction items with
  | nil =>
    refine iff_of_false (not_failsByLookup_ok []) ?_
    rintro ⟨before, item, after, absurd, -⟩
    simp at absurd
  | cons first rest ih =>
    rw [List.mapM_cons]
    by_cases here : FailsByLookup (read first)
    · refine iff_of_true ?_ ⟨[], first, rest, rfl, by simp, here⟩
      obtain ⟨fault, failed, kind⟩ := here
      exact ⟨fault, by rw [failed]; rfl, kind⟩
    · rw [failsByLookup_bind_iff here]
      constructor
      · rintro ⟨value, given, fails⟩
        have later : FailsByLookup (rest.mapM read) := by
          by_contra safe
          exact not_failsByLookup_bind safe (fun _ => not_failsByLookup_ok _) fails
        obtain ⟨before, item, after, rfl, succeed, fails⟩ := ih.1 later
        exact ⟨first :: before, item, after, rfl,
          List.forall_mem_cons.2 ⟨⟨value, given⟩, succeed⟩, fails⟩
      · rintro ⟨before, item, after, split, succeed, fails⟩
        cases before with
        | nil =>
          cases split
          exact absurd fails here
        | cons earlier before =>
          obtain ⟨rfl, rfl⟩ := List.cons.inj split
          obtain ⟨⟨value, given⟩, succeed⟩ := List.forall_mem_cons.1 succeed
          obtain ⟨fault, failed, kind⟩ := ih.2 ⟨before, item, after, rfl, succeed, fails⟩
          exact ⟨value, given, fault, by rw [failed]; rfl, kind⟩

end Outcomes

/-! ## Parts of a configuration -/

theorem readBase_safe (source? : Option String) (data : Entries Json) :
    ¬ FailsByLookup (readBase source? data) := by
  unfold readBase
  split <;> simp [FailsByLookup, ConfigError.kind]

theorem readSection_safe (source? : Option String) (data : Entries Json) (key : String) :
    ¬ FailsByLookup (readSection source? data key) := by
  unfold readSection
  split <;> simp [FailsByLookup, ConfigError.kind]

theorem readEnvironments_safe (source? : Option String) (data : Entries Json) :
    ¬ FailsByLookup (readEnvironments source? data) := by
  unfold readEnvironments
  split <;> simp [FailsByLookup, ConfigError.kind]

theorem readStandard_safe (source? : Option String) (data : Entries Json) :
    ¬ FailsByLookup (readStandard source? data) := by
  unfold readStandard
  split <;> simp [FailsByLookup, ConfigError.kind]

theorem readSettings_safe (settings : Entries Json) : ¬ FailsByLookup (readSettings settings) := by
  induction settings with
  | nil => exact not_failsByLookup_ok _
  | cons entry rest ih =>
    refine not_failsByLookup_bind (not_failsByLookup_mapError fun fault => ?_) fun setting =>
      not_failsByLookup_bind ih fun settings => not_failsByLookup_ok _
    simp [ConfigError.kind]

theorem readSuppressions_safe (source? : Option String) (suppressions : Entries Json) :
    ¬ FailsByLookup (readSuppressions source? suppressions) := by
  induction suppressions with
  | nil => exact not_failsByLookup_ok _
  | cons entry rest ih =>
    obtain ⟨id, value⟩ := entry
    rw [readSuppressions]
    cases readPatterns? value with
    | none => exact not_failsByLookup_error (by simp [ConfigError.kind])
    | some patterns => exact not_failsByLookup_bind ih fun _ => not_failsByLookup_ok _

/-! ## Environments -/

/-- A value that can be no name. -/
inductive Nameless : Json → Prop where
  | list (items : List Json) : Nameless (.list items)
  | object (members : Entries Json) : Nameless (.object members)

/-- The value is the name of a known environment. -/
def NamesEnvironment (value : Json) : Prop :=
  ∃ name ∈ Environment.byName.names, value = .text name

theorem ofName_eq_ok_iff {name : String} :
    (∃ environment, Environment.ofName name = .ok environment)
      ↔ name ∈ Environment.byName.names := by
  unfold Environment.ofName Environment.ofName?
  cases found : Environment.byName.find? name with
  | none => simp [Entries.find?_eq_none_iff.1 found]
  | some environment =>
    have known : name ∈ Environment.byName.names := by
      by_contra absent
      simp [Entries.find?_eq_none_iff.2 absent] at found
    simp [known]

theorem readEnvironmentName_eq_ok_iff {value : Json} :
    (∃ name, readEnvironmentName value = .ok name) ↔ NamesEnvironment value := by
  cases value with
  | text name =>
    have named : NamesEnvironment (.text name) ↔ name ∈ Environment.byName.names := by
      simp [NamesEnvironment]
    simp only [named, ← ofName_eq_ok_iff, readEnvironmentName, Environment.ofJson]
    cases Environment.ofName name <;> simp
  | _ => simp [readEnvironmentName, Environment.ofJson, NamesEnvironment]

theorem failsByLookup_readEnvironmentName_iff {value : Json} :
    FailsByLookup (readEnvironmentName value) ↔ Nameless value := by
  cases value with
  | list items => exact iff_of_true ⟨_, rfl, rfl⟩ (.list items)
  | object members => exact iff_of_true ⟨_, rfl, rfl⟩ (.object members)
  | text name =>
    refine iff_of_false ?_ fun nameless => by cases nameless
    simp only [readEnvironmentName, Environment.ofJson, Environment.ofName]
    cases Environment.ofName? name <;> simp [FailsByLookup, ConfigError.kind]
  | _ =>
    refine iff_of_false ?_ fun nameless => by cases nameless
    simp [readEnvironmentName, Environment.ofJson, FailsByLookup, ConfigError.kind]

/-- The first value that names no environment can be no name. -/
def NamelessFirst (items : List Json) : Prop :=
  ∃ before item after, items = before ++ item :: after
    ∧ (∀ earlier ∈ before, NamesEnvironment earlier) ∧ Nameless item

theorem failsByLookup_readEnvironmentNames_iff {items : List Json} :
    FailsByLookup (items.mapM readEnvironmentName) ↔ NamelessFirst items := by
  simp only [failsByLookup_mapM_iff, readEnvironmentName_eq_ok_iff,
    failsByLookup_readEnvironmentName_iff, NamelessFirst]

/-! ## Whole configurations -/

/-- The entries of all other names. -/
def Entries.without {α : Type} (name : String) (entries : Entries α) : Entries α :=
  entries.filter fun entry => entry.1 != name

namespace Config

/-- All parts of a configuration but the environments can be read. -/
@[mk_iff]
structure ReadableApart (source? : Option String) (data : Entries Json) : Prop where
  keys : ∀ key ∈ data.names, key ∈ keys
  base : ∃ base, readBase source? data = .ok base
  rules : ∃ members, readSection source? data "rules" = .ok members
    ∧ ∃ rules, readSettings members = .ok rules
  globals : ∃ members, readSection source? data "globals" = .ok members
  decorators : ∃ members, readSection source? data "decorators" = .ok members
  standard : ∃ flag, readStandard source? data = .ok flag
  suppressions : ∃ members, readSection source? data "suppressions" = .ok members
    ∧ ∃ suppressions, readSuppressions source? members = .ok suppressions

theorem ofJson_eq_ok_iff {source? : Option String} {data : Entries Json} :
    (∃ config, ofJson source? (.object data) = .ok config) ↔ ReadableApart source? data
      ∧ ∃ items, readEnvironments source? data = .ok items
        ∧ ∃ names, items.mapM readEnvironmentName = .ok names := by
  simp only [ofJson, guard_eq_ok_iff, no_unknown_iff, bind_eq_ok_iff]
  constructor
  · rintro ⟨_, known, _, base, _, inRules, _, rules, _, globals, items, environments, _,
      decorators, _, standard, _, inSuppressions, _, suppressions, names, named, -⟩
    exact ⟨⟨known, ⟨_, base⟩, ⟨_, inRules, _, rules⟩, ⟨_, globals⟩, ⟨_, decorators⟩, ⟨_, standard⟩,
      ⟨_, inSuppressions, _, suppressions⟩⟩, items, environments, names, named⟩
  · rintro ⟨⟨known, ⟨_, base⟩, ⟨_, inRules, _, rules⟩, ⟨_, globals⟩, ⟨_, decorators⟩, ⟨_, standard⟩,
      ⟨_, inSuppressions, _, suppressions⟩⟩, items, environments, names, named⟩
    exact ⟨_, known, _, base, _, inRules, _, rules, _, globals, items, environments, _,
      decorators, _, standard, _, inSuppressions, _, suppressions, names, named, rfl⟩

theorem failsByLookup_ofJson_iff {source? : Option String} {data : Entries Json} :
    FailsByLookup (ofJson source? (.object data)) ↔ ReadableApart source? data
      ∧ ∃ items, readEnvironments source? data = .ok items
        ∧ FailsByLookup (items.mapM readEnvironmentName) := by
  have stated : (ConfigError.unknownKeys source?
      (sortNames (data.names.filter fun key => !keys.contains key))).kind ≠ .lookup := by
    simp [ConfigError.kind]
  simp only [ofJson, failsByLookup_guard_iff stated, no_unknown_iff,
    failsByLookup_bind_iff (readBase_safe _ _), failsByLookup_bind_iff (readSection_safe _ _ _),
    failsByLookup_bind_iff (readSettings_safe _),
    failsByLookup_bind_iff (readEnvironments_safe _ _),
    failsByLookup_bind_iff (readStandard_safe _ _),
    failsByLookup_bind_iff (readSuppressions_safe _ _)]
  constructor
  · rintro ⟨known, _, base, _, inRules, _, rules, _, globals, items, environments, _,
      decorators, _, standard, _, inSuppressions, _, suppressions, fails⟩
    refine ⟨⟨known, ⟨_, base⟩, ⟨_, inRules, _, rules⟩, ⟨_, globals⟩, ⟨_, decorators⟩, ⟨_, standard⟩,
      ⟨_, inSuppressions, _, suppressions⟩⟩, items, environments, ?_⟩
    by_contra safe
    exact not_failsByLookup_bind safe (fun _ => not_failsByLookup_ok _) fails
  · rintro ⟨⟨known, ⟨_, base⟩, ⟨_, inRules, _, rules⟩, ⟨_, globals⟩, ⟨_, decorators⟩, ⟨_, standard⟩,
      ⟨_, inSuppressions, _, suppressions⟩⟩, items, environments, fault, failed, kind⟩
    refine ⟨known, _, base, _, inRules, _, rules, _, globals, items, environments, _,
      decorators, _, standard, _, inSuppressions, _, suppressions, fault, ?_, kind⟩
    rw [failed]
    rfl

/-! ## A configuration without its environments -/

theorem find?_without {α : Type} (entries : Entries α) {name key : String} (other : key ≠ name) :
    (entries.without name).find? key = entries.find? key := by
  induction entries with
  | nil => rfl
  | cons entry rest ih =>
    obtain ⟨first, value⟩ := entry
    rw [Entries.find?_cons, ← ih, Entries.without, List.filter_cons]
    by_cases erased : first = name
    · subst erased
      simp [other, Entries.without]
    · simp only [bne_iff_ne, Ne, erased, not_false_eq_true, if_true, Entries.find?_cons]
      rfl

theorem readableApart_without_iff {source? : Option String} {data : Entries Json} :
    ReadableApart source? (data.without "env") ↔ ReadableApart source? data := by
  have sections : ∀ key, key ≠ "env" →
      readSection source? (data.without "env") key = readSection source? data key := by
    intro key other
    simp only [readSection, find?_without data other]
  have base : readBase source? (data.without "env") = readBase source? data := by
    simp only [readBase, find?_without data (by decide : "extends" ≠ "env")]
  have standard : readStandard source? (data.without "env") = readStandard source? data := by
    simp only [readStandard, find?_without data (by decide : "defaultDecorators" ≠ "env")]
  have known : (∀ key ∈ (data.without "env").names, key ∈ keys)
      ↔ ∀ key ∈ data.names, key ∈ keys := by
    constructor
    · intro all key member
      by_cases environments : key = "env"
      · rw [environments]
        decide
      · refine all key ?_
        obtain ⟨entry, listed, rfl⟩ := List.mem_map.1 member
        exact List.mem_map.2 ⟨entry, List.mem_filter.2 ⟨listed, by simpa using environments⟩, rfl⟩
    · intro all key member
      obtain ⟨entry, listed, rfl⟩ := List.mem_map.1 member
      exact all _ (List.mem_map.2 ⟨entry, (List.mem_filter.1 listed).1, rfl⟩)
  rw [readableApart_iff, readableApart_iff, known, base, standard, sections "rules" (by decide),
    sections "globals" (by decide), sections "decorators" (by decide),
    sections "suppressions" (by decide)]

theorem ofJson_without_eq_ok_iff {source? : Option String} {data : Entries Json} :
    (∃ config, ofJson source? (.object (data.without "env")) = .ok config)
      ↔ ReadableApart source? data := by
  have none : (data.without "env").find? "env" = none := by
    simp [Entries.find?_eq_none_iff, Entries.without, Entries.names]
  have empty : readEnvironments source? (data.without "env") = .ok [] := by
    rw [readEnvironments, none]
  rw [ofJson_eq_ok_iff, readableApart_without_iff, empty]
  exact ⟨fun both => both.1, fun readable => ⟨readable, [], rfl, [], rfl⟩⟩

theorem readEnvironments_fails_iff {source? : Option String} {data : Entries Json} :
    (∃ items, readEnvironments source? data = .ok items
        ∧ FailsByLookup (items.mapM readEnvironmentName))
      ↔ ∃ items, data.find? "env" = some (.list items) ∧ NamelessFirst items := by
  simp only [failsByLookup_readEnvironmentNames_iff]
  constructor
  · rintro ⟨items, read, before, item, after, rfl, succeed, nameless⟩
    unfold readEnvironments at read
    split at read
    next => simp at read
    next items found =>
      cases read
      exact ⟨_, found, before, item, after, rfl, succeed, nameless⟩
    next members found =>
      -- The names of an object are texts.
      have member : item ∈ before ++ item :: after := by simp
      rw [← Except.ok.inj read, List.mem_filterMap] at member
      obtain ⟨⟨name, value⟩, -, text⟩ := member
      simp only [Option.ite_none_right_eq_some, Option.some.injEq] at text
      obtain ⟨-, rfl⟩ := text
      cases nameless
    next => cases read
  · rintro ⟨items, found, first⟩
    exact ⟨items, by rw [readEnvironments, found], first⟩

end Config

/-! ## Runners -/

theorem Rule.checkOptions_safe (rule : Rule) (options : Entries Json) :
    ¬ FailsByLookup (rule.checkOptions options) := by
  induction options with
  | nil => exact not_failsByLookup_ok ()
  | cons option rest ih =>
    obtain ⟨name, value⟩ := option
    unfold Rule.checkOptions
    cases rule.flags.contains name with
    | false => exact not_failsByLookup_error (by simp [ConfigError.kind])
    | true =>
      cases value with
      | bool flag => exact ih
      | _ => exact not_failsByLookup_error (by simp [ConfigError.kind])

theorem Rule.checkSettings_safe (rules : List Rule) (settings : Entries RuleSetting) :
    ¬ FailsByLookup (Rule.checkSettings rules settings) := by
  induction settings with
  | nil => exact not_failsByLookup_ok ()
  | cons setting rest ih =>
    rw [Rule.checkSettings]
    split
    · exact not_failsByLookup_error (by simp [ConfigError.kind])
    · exact not_failsByLookup_bind (Rule.checkOptions_safe _ _) fun _ => ih

theorem Config.knownEnvironments_safe (config : Config) :
    ¬ FailsByLookup config.knownEnvironments := by
  rw [Config.knownEnvironments, failsByLookup_mapM_iff]
  rintro ⟨before, name, after, -, -, fails⟩
  rw [Environment.ofName] at fails
  cases found : Environment.ofName? name with
  | some environment =>
    rw [found] at fails
    exact not_failsByLookup_ok environment fails
  | none =>
    rw [found] at fails
    exact not_failsByLookup_error (by simp [ConfigError.kind]) fails

theorem Config.validate_safe (config : Config) (known : List String) :
    ¬ FailsByLookup (config.validate (some known)) := by
  refine not_failsByLookup_bind config.knownEnvironments_safe fun environments => ?_
  cases unknown : config.rules.names.find? fun name => !known.contains name with
  | none =>
    simp only [unknown]
    exact not_failsByLookup_ok environments
  | some name =>
    simp only [unknown]
    exact not_failsByLookup_error (by simp [ConfigError.kind])

theorem Runner.ofConfig_safe (rules : List Rule) (config : Config) (given : Suppressions) :
    ¬ FailsByLookup (Runner.ofConfig rules config given) := by
  refine not_failsByLookup_bind (config.validate_safe _) fun environments =>
    not_failsByLookup_bind (Rule.checkSettings_safe rules config.rules) fun _ =>
      not_failsByLookup_bind (not_failsByLookup_mapError fun fault => ?_) fun registry =>
        not_failsByLookup_ok _
  simp [ConfigError.kind]

/-- The runner of the standard rules for a configuration as it is written. -/
def Runner.ofJson (source? : Option String) (data : Json) : Except ConfigError Runner := do
  let config ← Config.ofJson source? data
  Runner.ofConfig Rule.standard config []

theorem failsByLookup_ofJson_iff {source? : Option String} {data : Json} :
    FailsByLookup (Runner.ofJson source? data)
      ↔ ∃ (members : Entries Json) (items : List Json), data = .object members
        ∧ members.find? "env" = some (.list items)
        ∧ (∃ config, Config.ofJson source? (.object (members.without "env")) = .ok config)
        ∧ NamelessFirst items := by
  have reading : FailsByLookup (Runner.ofJson source? data)
      ↔ FailsByLookup (Config.ofJson source? data) := by
    constructor
    · intro fails
      by_contra safe
      exact not_failsByLookup_bind safe (fun config => Runner.ofConfig_safe _ config _) fails
    · rintro ⟨fault, failed, kind⟩
      exact ⟨fault, by rw [Runner.ofJson, failed]; rfl, kind⟩
  rw [reading]
  cases data with
  | object members =>
    simp only [Config.failsByLookup_ofJson_iff, Config.readEnvironments_fails_iff,
      Config.ofJson_without_eq_ok_iff]
    constructor
    · rintro ⟨readable, items, found, first⟩
      exact ⟨members, items, rfl, found, readable, first⟩
    · rintro ⟨_, items, same, found, readable, first⟩
      cases same
      exact ⟨readable, items, found, first⟩
  | _ =>
    refine iff_of_false ?_ ?_
    · simp [Config.ofJson, FailsByLookup, ConfigError.kind]
    · rintro ⟨members, items, absurd, -⟩
      cases absurd

/-- **A JSON value makes a runner or is rejected with an error about the configuration**, unless
all of it but `env` can be read and `env` is a list whose first item that names no environment is
a list or an object. -/
theorem runner_or_stated_error_iff (source? : Option String) (data : Json) :
    ((∃ runner, Runner.ofJson source? data = .ok runner)
        ∨ ∃ fault, Runner.ofJson source? data = .error fault ∧ fault.kind ≠ .lookup)
      ↔ ¬ ∃ (members : Entries Json) (items : List Json), data = .object members
        ∧ members.find? "env" = some (.list items)
        ∧ (∃ config, Config.ofJson source? (.object (members.without "env")) = .ok config)
        ∧ NamelessFirst items := by
  rw [← failsByLookup_ofJson_iff]
  cases Runner.ofJson source? data with
  | ok runner => exact iff_of_true (.inl ⟨runner, rfl⟩) (not_failsByLookup_ok runner)
  | error fault => simp [failsByLookup_error_iff]

/-- The value `{"env": [[]]}` is not rejected with an error about the configuration, though
`{"env": [1]}` is. -/
theorem env_of_list_not_stated :
    FailsByLookup (Runner.ofJson none (.object [("env", .list [.list []])]))
      ∧ ∃ fault, Runner.ofJson none (.object [("env", .list [.int 1])]) = .error fault
        ∧ fault.kind = .configuration ∧ fault.message = "unknown environment 1" :=
  ⟨⟨_, rfl, rfl⟩, _, rfl, rfl, rfl⟩

end TemplateLint
