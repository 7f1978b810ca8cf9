import Mathlib.Data.List.Nodup
import TemplateLint.Proofs.Entries
import TemplateLint.Proofs.Run.Independence

/-!
# What the rules of a run have to do with each other

The rules of a run share a context that none of them changes, the suppressions, and what
rules tell the rules after them (`Shared`). A rule is *deaf* if its problems do not depend on
what it is told, and *mute* if it tells nothing. Of the standard rules only `jsx-member-vars`
is not mute and only `no-unused-vars` is not deaf. Hence **rules do not interfere**
(`Runner.reports_of_rule_alone`), `jsx-member-vars` excepted where `no-unused-vars` is looked at.
-/

namespace TemplateLint

open TemplateLint.Diagnostic TemplateLint.Directive

variable {rule : Rule} {runner : Runner} {config : Config}

/-! ## Deaf and mute rules -/

namespace Rule

/-- The problems of a rule do not depend on what earlier rules tell it. -/
def Deaf (rule : Rule) : Prop :=
  ∀ context options, ∃ problems, ∀ shared, ∃ after,
    rule.check context options shared = .ok (after, problems)

/-- The rule leaves what rules share as it is. -/
def Mute (rule : Rule) : Prop :=
  ∀ context options shared, ∃ problems, rule.check context options shared = .ok (shared, problems)

theorem deaf_of_mem_standard (member : rule ∈ standard) (other : rule.name ≠ unusedVariables.name) :
    rule.Deaf := by
  intro context options
  simp only [standard, List.mem_cons, List.not_mem_nil, or_false] at member
  rcases member with rfl | rfl | rfl | rfl
  · exact ⟨_, fun shared => ⟨_, rfl⟩⟩
  · exact ⟨_, fun shared => ⟨_, rfl⟩⟩
  · exact ⟨_, fun shared => ⟨_, rfl⟩⟩
  · exact absurd rfl other

theorem mute_of_mem_standard (member : rule ∈ standard) (other : rule.name ≠ tagUses.name) :
    rule.Mute := by
  intro context options shared
  simp only [standard, List.mem_cons, List.not_mem_nil, or_false] at member
  rcases member with rfl | rfl | rfl | rfl
  · exact absurd rfl other
  · exact ⟨_, rfl⟩
  · exact ⟨_, rfl⟩
  · exact ⟨_, rfl⟩

theorem nodup_names_standard : (standard.map Rule.name).Nodup := by decide

theorem eq_of_mem_standard {other : Rule} (member : rule ∈ standard)
    (member' : other ∈ standard) (same : rule.name = other.name) : rule = other :=
  List.inj_on_of_nodup_map nodup_names_standard member member' same

end Rule

namespace Runner

/-! ## Runs of rules -/

/-- What rules share after some of them have run. -/
def sharedAfter (runner : Runner) (context : Context) (shared : Shared) (rules : List Rule) :
    Shared :=
  rules.foldl (fun shared rule => (runner.runRule context shared rule).shared) shared

section Runs

variable (runner : Runner) (context : Context) (shared : Shared)

theorem shared_runRule_of_mute (mute : rule.Mute) :
    (runner.runRule context shared rule).shared = shared := by
  obtain ⟨problems, checked⟩ := mute context (runner.config.rule rule.name).options shared
  simp only [runRule, checked]

theorem sharedAfter_of_mute {rules : List Rule} (mute : ∀ rule ∈ rules, rule.Mute) :
    runner.sharedAfter context shared rules = shared := by
  induction rules with
  | nil => rfl
  | cons rule rest ih =>
    rw [sharedAfter, List.foldl_cons, shared_runRule_of_mute _ _ _ (mute rule (.head _))]
    exact ih fun other member => mute other (.tail _ member)

theorem names_runRules (rules : List Rule) :
    Entries.names (runner.runRules context shared rules).1 = rules.map Rule.name := by
  induction rules generalizing shared with
  | nil => rfl
  | cons rule rest ih => exact congrArg (rule.name :: ·) (ih _)

theorem find?_runRules {before after : List Rule} (fresh : rule.name ∉ before.map Rule.name) :
    Entries.find? (runner.runRules context shared (before ++ rule :: after)).1 rule.name
      = some (runner.runRule context
          (runner.sharedAfter context shared before) rule).diagnostics := by
  induction before generalizing shared with
  | nil => exact (Entries.find?_cons ..).trans (if_pos rfl)
  | cons first rest ih =>
    have other : rule.name ≠ first.name := List.ne_of_not_mem_cons fresh
    refine (Entries.find?_cons ..).trans ((if_neg other).trans ?_)
    exact ih _ (List.not_mem_of_not_mem_cons fresh)

theorem diagnostics_runRule_of_deaf (other : Shared) (deaf : rule.Deaf) :
    (runner.runRule context shared rule).diagnostics
      = (runner.runRule context other rule).diagnostics := by
  obtain ⟨problems, checked⟩ := deaf context (runner.config.rule rule.name).options
  obtain ⟨after, here⟩ := checked shared
  obtain ⟨after', there⟩ := checked other
  simp only [runRule, here, there]

theorem rule_of_mem_runRule (rule : Rule) {diagnostic : Diagnostic}
    (member : diagnostic ∈ (runner.runRule context shared rule).diagnostics) :
    diagnostic.rule = rule.name := by
  unfold runRule at member
  split at member
  · obtain ⟨problem, _, rfl⟩ := List.mem_map.1 (SuppressionStore.mem_filter.1 member).1
    rfl
  · rw [List.mem_singleton.1 member]
    rfl

theorem rule_of_mem_runRules (rules : List Rule) :
    ∀ group ∈ (runner.runRules context shared rules).1, ∀ diagnostic ∈ group.2,
      diagnostic.rule = group.1 := by
  induction rules generalizing shared with
  | nil => simp [runRules]
  | cons rule rest ih =>
    intro group member diagnostic inside
    rcases List.mem_cons.1 member with rfl | later
    · exact runner.rule_of_mem_runRule context shared rule inside
    · exact ih _ group later diagnostic inside

end Runs

/-! ## Runners that differ in the settings of rules -/

/-- Two runners that differ at most in the settings of their rules. -/
structure Alike (first second : Runner) : Prop where
  rules : first.rules = second.rules
  environments : first.environments = second.environments
  registry : first.registry = second.registry
  suppressions : first.suppressions = second.suppressions
  globals : first.config.globals = second.config.globals

section Settings

variable {first second : Runner} (alike : first.Alike second)

include alike

theorem Alike.withDirectives (file : String) (directives : Directives) :
    (first.withDirectives file directives).Alike (second.withDirectives file directives) where
  rules := alike.rules
  environments := alike.environments
  registry := alike.registry
  suppressions :=
    congrArg (·.loadDirectives file directives) alike.suppressions
  globals := alike.globals

theorem Alike.knownNames (directives : Directives) :
    first.knownNames directives = second.knownNames directives := by
  simp only [Runner.knownNames, alike.environments, alike.globals]

theorem Alike.runRule (setting : first.config.rule rule.name = second.config.rule rule.name)
    (context : Context) (shared : Shared) :
    first.runRule context shared rule = second.runRule context shared rule := by
  have found : first.diagnose context rule = second.diagnose context rule := by
    funext problem
    simp only [diagnose, severity, setting]
  simp only [Runner.runRule, setting, alike.suppressions, found]

end Settings

theorem mem_enabledRules :
    rule ∈ runner.enabledRules
      ↔ rule ∈ runner.rules ∧ rule.name ∈ runner.config.enabledRules := by
  simp [enabledRules]

section Standard

variable {runner : Runner} (standard : runner.rules = Rule.standard)

include standard

theorem nodup_names_enabledRules : (runner.enabledRules.map Rule.name).Nodup := by
  have kept : runner.enabledRules.Sublist Rule.standard := standard ▸ List.filter_sublist
  exact Rule.nodup_names_standard.sublist (kept.map Rule.name)

theorem mem_standard_of_enabled (enabled : rule ∈ runner.enabledRules) :
    rule ∈ Rule.standard :=
  standard ▸ (mem_enabledRules.1 enabled).1

theorem find?_runRules_of_deaf (context : Context)
    (enabled : rule ∈ runner.enabledRules) (deaf : rule.Deaf) :
    Entries.find? (runner.runRules context .empty runner.enabledRules).1 rule.name
      = some (runner.runRule context .empty rule).diagnostics := by
  obtain ⟨before, after, parts⟩ := List.append_of_mem enabled
  have distinct := nodup_names_enabledRules standard
  rw [parts, List.map_append, List.map_cons] at distinct
  have fresh : rule.name ∉ before.map Rule.name := fun member =>
    (List.nodup_append.1 distinct).2.2 _ member _ (.head _) rfl
  rw [parts, find?_runRules runner context .empty fresh]
  exact congrArg some (diagnostics_runRule_of_deaf runner context _ _ deaf)

/-- What a run of the enabled rules records for `no-unused-vars`: it has been told what
`jsx-member-vars` tells, if that runs. -/
theorem find?_runRules_unusedVariables (context : Context)
    (enabled : Rule.unusedVariables ∈ runner.enabledRules) :
    Entries.find? (runner.runRules context .empty runner.enabledRules).1 Rule.unusedVariables.name
      = some (runner.runRule context
          (if Rule.tagUses.name ∈ runner.config.enabledRules
            then (runner.runRule context .empty Rule.tagUses).shared else .empty)
          Rule.unusedVariables).diagnostics := by
  have last : Rule.unusedVariables.name ∈ runner.config.enabledRules :=
    (mem_enabledRules.1 enabled).2
  let quiet := [Rule.undeclared, Rule.superCalls].filter fun rule =>
    runner.config.enabledRules.contains rule.name
  have mute : ∀ rule ∈ quiet, rule.Mute := by
    intro rule member
    rcases List.mem_pair.1 (List.mem_filter.1 member).1 with rfl | rfl
    · exact Rule.mute_of_mem_standard (by simp [Rule.standard]) (by decide)
    · exact Rule.mute_of_mem_standard (by simp [Rule.standard]) (by decide)
  have fresh : Rule.unusedVariables.name ∉ quiet.map Rule.name := by
    intro member
    obtain ⟨rule, inside, same⟩ := List.mem_map.1 member
    rcases List.mem_pair.1 (List.mem_filter.1 inside).1 with rfl | rfl
    · exact absurd same (by decide)
    · exact absurd same (by decide)
  have parts : runner.enabledRules
      = (if Rule.tagUses.name ∈ runner.config.enabledRules then [Rule.tagUses] else [])
        ++ quiet ++ [Rule.unusedVariables] := by
    have order : Rule.standard
        = [Rule.tagUses] ++ [Rule.undeclared, Rule.superCalls] ++ [Rule.unusedVariables] := rfl
    rw [enabledRules, standard, order, List.filter_append, List.filter_append]
    simp only [List.filter_singleton, cond_eq_ite, List.contains_iff_mem, last, if_true, quiet]
  by_cases told : Rule.tagUses.name ∈ runner.config.enabledRules
  · have fresh' : Rule.unusedVariables.name ∉ ([Rule.tagUses] ++ quiet).map Rule.name := by
      rw [List.singleton_append, List.map_cons, List.mem_cons, not_or]
      exact ⟨by decide, fresh⟩
    rw [parts, if_pos told, if_pos told, find?_runRules runner context .empty fresh', sharedAfter,
      List.singleton_append, List.foldl_cons]
    exact congrArg (fun shared => some (runner.runRule context shared _).diagnostics)
      (sharedAfter_of_mute runner context _ mute)
  · rw [parts, if_neg told, if_neg told, List.nil_append,
      find?_runRules runner context .empty fresh, sharedAfter_of_mute runner context _ mute]

end Standard

/-! ## What is recorded for a rule -/

end Runner

/-- The diagnostics that are recorded under the name of a rule. -/
def Results.recordedFor (results : Results) (rule : Rule) : List Diagnostic :=
  (results.byRule.find? rule.name).getD []

/-- The diagnostics that are listed with the name of a rule. -/
def Results.listedFor (results : Results) (rule : Rule) : List Diagnostic :=
  results.diagnostics.filter fun diagnostic => diagnostic.rule == rule.name

namespace Runner

theorem filter_flatMap_groups {groups : Entries (List Diagnostic)} (distinct : groups.names.Nodup)
    (own : ∀ group ∈ groups, ∀ diagnostic ∈ group.2, diagnostic.rule = group.1) (name : String) :
    (groups.flatMap Prod.snd).filter (fun diagnostic => diagnostic.rule == name)
      = (groups.find? name).getD [] := by
  induction groups with
  | nil => rfl
  | cons group rest ih =>
    obtain ⟨fresh, others⟩ := List.nodup_cons.1 distinct
    have later := ih others fun other member => own other (.tail _ member)
    rw [List.flatMap_cons, List.filter_append, later, Entries.find?_cons]
    by_cases same : name = group.1
    · subst same
      have absent : Entries.find? rest group.1 = none := by
        rw [Entries.find?, List.lookup_eq_none_iff]
        intro entry member
        have unlike : group.1 ≠ entry.1 := fun equal =>
          fresh (List.mem_map.2 ⟨entry, member, equal.symm⟩)
        simpa using unlike
      rw [absent, if_pos rfl, Option.getD_none, Option.getD_some, List.append_nil,
        List.filter_eq_self]
      intro diagnostic member
      simpa using own group (.head _) diagnostic member
    · rw [if_neg same, List.filter_eq_nil_iff.2, List.nil_append]
      intro diagnostic member
      have named := own group (.head _) diagnostic member
      simpa [named] using Ne.symm same

theorem nodup_names_groups (standard : runner.rules = Rule.standard) (context : Context) :
    (Entries.names (runner.runRules context .empty runner.enabledRules).1).Nodup := by
  rw [names_runRules]
  exact nodup_names_enabledRules standard

theorem recordedFor_fileResults (file : String) {groups : Entries (List Diagnostic)}
    (distinct : groups.names.Nodup) (rule : Rule) :
    (fileResults file groups).recordedFor rule = (groups.find? rule.name).getD [] := by
  rw [Results.recordedFor, fileResults, Entries.find?_layer distinct, Entries.find?_nil,
    Option.or_none]

theorem listedFor_fileResults (file : String) {groups : Entries (List Diagnostic)}
    (distinct : groups.names.Nodup)
    (own : ∀ group ∈ groups, ∀ diagnostic ∈ group.2, diagnostic.rule = group.1) (rule : Rule) :
    (fileResults file groups).listedFor rule
      = Diagnostic.sort ((fileResults file groups).recordedFor rule) := by
  rw [recordedFor_fileResults file distinct, ← filter_flatMap_groups distinct own, ← filter_sort]
  rfl

theorem recorded_checkText (standard : runner.rules = Rule.standard)
    (names : List String) (file : String) {text : List Char} {root : Syntax.Node}
    (parsed : Grammar.parse (String.ofList text) = .ok root) (rule : Rule) :
    (runner.checkText names file text).results.recordedFor rule
        = (Entries.find? (runner.runRules
            { file, text, index := .ofText text, tree := root.tree,
              analysis := Scope.analyze root names, registry := runner.registry }
            .empty runner.enabledRules).1 rule.name).getD []
      ∧ (runner.checkText names file text).results.listedFor rule
        = Diagnostic.sort ((runner.checkText names file text).results.recordedFor rule) := by
  simp only [checkText, parsed]
  have distinct := nodup_names_groups standard
  exact ⟨recordedFor_fileResults file (distinct _) rule,
    listedFor_fileResults file (distinct _) (runner.rule_of_mem_runRules _ _ _) rule⟩

theorem results_check (runner : Runner) (file : String) (text : List Char) :
    (runner.check file text).1.results
      = ((runner.withDirectives file (readDirectives text)).checkText
          (runner.knownNames (readDirectives text)) file text).results := rfl

/-- Two runners say the same about a file as far as one rule is concerned. -/
def AgreeOn (rule : Rule) (file : String) (text : List Char) (first second : Runner) : Prop :=
  (first.check file text).1.results.recordedFor rule
      = (second.check file text).1.results.recordedFor rule
    ∧ (first.check file text).1.results.listedFor rule
      = (second.check file text).1.results.listedFor rule

section Settings

variable {first second : Runner} (alike : first.Alike second)
  (standard : second.rules = Rule.standard)
  (setting : first.config.rule rule.name = second.config.rule rule.name)
  (tags : rule = Rule.unusedVariables → (Rule.tagUses.name ∈ first.config.enabledRules
    ↔ Rule.tagUses.name ∈ second.config.enabledRules))
  (enabled : rule ∈ first.enabledRules) (enabled' : rule ∈ second.enabledRules)

include alike standard setting tags enabled enabled'

theorem Alike.find?_runRules (context : Context) :
    Entries.find? (first.runRules context .empty first.enabledRules).1 rule.name
      = Entries.find? (second.runRules context .empty second.enabledRules).1 rule.name := by
  have standard' : first.rules = Rule.standard := alike.rules.trans standard
  have member := mem_standard_of_enabled standard enabled'
  by_cases last : rule.name = Rule.unusedVariables.name
  · obtain rfl : rule = Rule.unusedVariables :=
      Rule.eq_of_mem_standard member (by simp [Rule.standard]) last
    rw [find?_runRules_unusedVariables standard context enabled',
      find?_runRules_unusedVariables standard' context enabled, alike.runRule setting]
    simp only [tags rfl]
    rfl
  · have deaf := Rule.deaf_of_mem_standard member last
    rw [find?_runRules_of_deaf standard context enabled' deaf,
      find?_runRules_of_deaf standard' context enabled deaf, alike.runRule setting]

/-- **What a rule reports depends on its own setting**, and for `no-unused-vars` on whether
`jsx-member-vars` runs. -/
theorem Alike.agreeOn (file : String) (text : List Char) : AgreeOn rule file text first second := by
  have here := alike.withDirectives file (readDirectives text)
  rw [AgreeOn, results_check, results_check, alike.knownNames]
  cases parsed : Grammar.parse (String.ofList text) with
  | error error =>
    have same : ∀ names, ((first.withDirectives file (readDirectives text)).checkText names file
        text).results = ((second.withDirectives file (readDirectives text)).checkText names file
        text).results := by
      intro names
      simp only [checkText, parsed, parseFailure, here.suppressions]
    exact ⟨congrArg (Results.recordedFor · rule) (same _),
      congrArg (Results.listedFor · rule) (same _)⟩
  | ok root =>
    -- The directives of the file change neither the rules nor their settings.
    have standard₂ : (second.withDirectives file (readDirectives text)).rules = Rule.standard :=
      standard
    have standard₁ : (first.withDirectives file (readDirectives text)).rules = Rule.standard :=
      alike.rules.trans standard
    let names := second.knownNames (readDirectives text)
    obtain ⟨recorded, listed⟩ := recorded_checkText standard₁ names file parsed rule
    obtain ⟨recorded', listed'⟩ := recorded_checkText standard₂ names file parsed rule
    have same := here.find?_runRules standard setting tags enabled enabled'
    rw [same, here.registry, ← recorded'] at recorded
    exact ⟨recorded, listed.trans ((congrArg Diagnostic.sort recorded).trans listed'.symm)⟩

end Settings

/-! ## Configurations -/

end Runner

theorem Config.validate_eq_ok_iff {known : List String} {environments : List Environment} :
    config.validate (some known) = .ok environments
      ↔ config.knownEnvironments = .ok environments
        ∧ ∀ name ∈ config.rules.names, name ∈ known := by
  unfold Config.validate
  cases config.knownEnvironments with
  | error error => simp [bind, Except.bind]
  | ok found =>
    cases unknown : config.rules.names.find? (fun name => !known.contains name) with
    | some name =>
      have member := List.mem_of_find?_eq_some unknown
      have stranger : name ∉ known := by simpa using List.find?_some unknown
      simp only [bind, Except.bind, unknown, throw, throwThe, MonadExceptOf.throw, reduceCtorEq,
        false_iff]
      exact fun valid => stranger (valid.2 name member)
    | none =>
      have all : ∀ name ∈ config.rules.names, name ∈ known := by
        simpa using List.find?_eq_none.1 unknown
      simp only [bind, Except.bind, unknown, pure, Except.pure]
      exact ⟨fun same => ⟨same, all⟩, fun same => same.1⟩

theorem Rule.checkSettings_eq_ok_iff {rules : List Rule} {settings : Entries RuleSetting} :
    checkSettings rules settings = .ok ()
      ↔ ∀ entry ∈ settings, ∃ rule, find? rules entry.1 = some rule
        ∧ rule.checkOptions entry.2.options = .ok () := by
  induction settings with
  | nil => simp [checkSettings]
  | cons entry rest ih =>
    obtain ⟨name, setting⟩ := entry
    rw [checkSettings, List.forall_mem_cons, ← ih]
    cases found : find? rules name with
    | none => simp [bind, Except.bind, throw, throwThe, MonadExceptOf.throw]
    | some rule =>
      cases checked : rule.checkOptions setting.options with
      | error error | ok _ => simp [bind, Except.bind, checked]

namespace Runner

theorem ofConfig_eq_ok_iff {rules : List Rule} {given : Suppressions} :
    ofConfig rules config given = .ok runner ↔
      ∃ environments registry, config.knownEnvironments = .ok environments
        ∧ (∀ name ∈ config.rules.names, name ∈ rules.map Rule.name)
        ∧ Rule.checkSettings rules config.rules = .ok ()
        ∧ config.registry = .ok registry
        ∧ runner = { config, rules, environments, registry,
                     suppressions := (given ++ configured config : Suppressions) } := by
  constructor
  · intro made
    unfold ofConfig at made
    cases valid : config.validate (some (rules.map Rule.name)) with
    | error error => simp [valid, bind, Except.bind] at made
    | ok environments =>
      cases checked : Rule.checkSettings rules config.rules with
      | error error => simp [valid, checked, bind, Except.bind] at made
      | ok _ =>
        cases read : config.registry with
        | error error => simp [valid, checked, read, bind, Except.bind, Except.mapError] at made
        | ok registry =>
          obtain ⟨known, named⟩ := Config.validate_eq_ok_iff.1 valid
          simp only [valid, checked, read, bind, Except.bind, Except.mapError, pure, Except.pure,
            Except.ok.injEq] at made
          exact ⟨environments, registry, known, named, rfl, rfl, made.symm⟩
  · rintro ⟨environments, registry, known, named, checked, read, rfl⟩
    have valid := Config.validate_eq_ok_iff.2 ⟨known, named⟩
    simp only [ofConfig, valid, checked, read, bind, Except.bind, Except.mapError, pure,
      Except.pure]

end Runner

/-- The rules that what a rule reports depends on, by name: itself, and `jsx-member-vars` for
`no-unused-vars`. -/
def Rule.restsOn (rule : Rule) (name : String) : Prop :=
  name = rule.name ∨ rule.name = unusedVariables.name ∧ name = tagUses.name

instance (rule : Rule) (name : String) : Decidable (rule.restsOn name) :=
  inferInstanceAs (Decidable (_ ∨ _))

def RuleSetting.turnedOff (setting : RuleSetting) : RuleSetting :=
  { setting with severity? := none }

namespace Config

/-- The configuration with all rules turned off but those that one rule rests on. -/
def only (config : Config) (rule : Rule) : Config :=
  { config with
    rules := config.rules.map fun (name, setting) =>
      (name, if rule.restsOn name then setting else setting.turnedOff) }

theorem mem_enabledRules_iff {name : String} :
    name ∈ config.enabledRules
      ↔ ∃ setting, (name, setting) ∈ config.rules ∧ setting.isEnabled = true := by
  simp [enabledRules]

theorem mem_rules_only {name : String} {setting : RuleSetting} :
    (name, setting) ∈ (config.only rule).rules
      ↔ ∃ given, (name, given) ∈ config.rules
        ∧ (if rule.restsOn name then given else given.turnedOff) = setting := by
  simp [only]

theorem mem_enabledRules_only {name : String} :
    name ∈ (config.only rule).enabledRules ↔ name ∈ config.enabledRules ∧ rule.restsOn name := by
  simp only [mem_enabledRules_iff, mem_rules_only]
  constructor
  · rintro ⟨_, ⟨given, listed, rfl⟩, runs⟩
    by_cases rests : rule.restsOn name
    · rw [if_pos rests] at runs
      exact ⟨⟨given, listed, runs⟩, rests⟩
    · rw [if_neg rests] at runs
      exact absurd runs Bool.false_ne_true
  · rintro ⟨⟨given, listed, runs⟩, rests⟩
    exact ⟨given, ⟨given, listed, if_pos rests⟩, runs⟩

theorem rule_only (config : Config) (rule : Rule) :
    (config.only rule).rule rule.name = config.rule rule.name := by
  have kept : ∀ settings : Entries RuleSetting,
      Entries.find? (settings.map fun (name, setting) =>
        (name, if rule.restsOn name then setting else setting.turnedOff)) rule.name
        = settings.find? rule.name := by
    intro settings
    induction settings with
    | nil => rfl
    | cons entry rest ih =>
      rw [List.map_cons, Entries.find?_cons, Entries.find?_cons, ih]
      by_cases same : rule.name = entry.1
      · rw [if_pos same, if_pos same, if_pos (.inl same.symm)]
      · rw [if_neg same, if_neg same]
  exact congrArg (·.getD .off) (kept config.rules)

end Config

namespace Runner

section NonInterference

variable {config : Config} {given : Suppressions} {runner : Runner}

section Made

variable (made : ofConfig Rule.standard config given = .ok runner)

include made

theorem exists_ofConfig_of_rules
    {rules : Entries RuleSetting} (known : ∀ entry ∈ rules,
      ∃ old, (entry.1, old) ∈ config.rules ∧ old.options = entry.2.options) :
    ∃ other, ofConfig Rule.standard { config with rules } given = .ok other
      ∧ other.Alike runner ∧ other.config.rules = rules := by
  obtain ⟨environments, registry, valid, named, checked, read, rfl⟩ := ofConfig_eq_ok_iff.1 made
  refine ⟨_, ofConfig_eq_ok_iff.2 ⟨environments, registry, valid, ?_, ?_, read, rfl⟩,
    ⟨rfl, rfl, rfl, rfl, rfl⟩, rfl⟩
  · intro name member
    obtain ⟨entry, listed, rfl⟩ := List.mem_map.1 member
    obtain ⟨old, before, _⟩ := known entry listed
    exact named entry.1 (List.mem_map.2 ⟨_, before, rfl⟩)
  · rw [Rule.checkSettings_eq_ok_iff] at checked ⊢
    intro entry listed
    obtain ⟨old, before, same⟩ := known entry listed
    exact same ▸ checked _ before

theorem config_of_ofConfig : runner.config = config := by
  obtain ⟨environments, registry, _, _, _, _, rfl⟩ := ofConfig_eq_ok_iff.1 made
  rfl

theorem mem_enabledRules_only (enabled : rule ∈ runner.enabledRules) {alone : Runner}
    (made' : ofConfig Rule.standard (config.only rule) given = .ok alone) (other : Rule) :
    other ∈ alone.enabledRules
      ↔ other ∈ runner.enabledRules
        ∧ (other = rule ∨ rule = Rule.unusedVariables ∧ other = Rule.tagUses) := by
  have known := mem_standard_of_enabled (rules_of_ofConfig made) enabled
  rw [mem_enabledRules, mem_enabledRules, rules_of_ofConfig made, rules_of_ofConfig made',
    config_of_ofConfig made, config_of_ofConfig made', Config.mem_enabledRules_only, and_assoc]
  refine and_congr_right fun member => and_congr_right fun _ => or_congr ?_ (and_congr ?_ ?_)
  · exact ⟨Rule.eq_of_mem_standard member known, congrArg Rule.name⟩
  · exact ⟨Rule.eq_of_mem_standard known (by simp [Rule.standard]), congrArg Rule.name⟩
  · exact ⟨Rule.eq_of_mem_standard member (by simp [Rule.standard]), congrArg Rule.name⟩

theorem exists_agreeOn_only (enabled : rule ∈ runner.enabledRules) (file : String)
    (text : List Char) :
    ∃ alone, ofConfig Rule.standard (config.only rule) given = .ok alone
      ∧ AgreeOn rule file text alone runner := by
  have known : ∀ entry ∈ (config.only rule).rules,
      ∃ old, (entry.1, old) ∈ config.rules ∧ old.options = entry.2.options := by
    intro entry listed
    obtain ⟨old, before, kept⟩ := Config.mem_rules_only.1 listed
    refine ⟨old, before, ?_⟩
    rw [← kept]
    split <;> rfl
  obtain ⟨alone, made', alike, _⟩ := exists_ofConfig_of_rules made known
  have same : runner.config = config := config_of_ofConfig made
  have same' : alone.config = config.only rule := config_of_ofConfig made'
  have enabled' := (mem_enabledRules_only made enabled made' rule).2 ⟨enabled, .inl rfl⟩
  refine ⟨alone, made', alike.agreeOn (rules_of_ofConfig made) ?_ ?_ enabled' enabled file text⟩
  · rw [same, same', Config.rule_only]
  · rintro rfl
    rw [same, same', Config.mem_enabledRules_only]
    exact and_iff_left (.inr ⟨rfl, rfl⟩)

theorem exists_agreeOn_perm (distinct : config.rules.names.Nodup) {order : Entries RuleSetting}
    (perm : order.Perm config.rules) (enabled : rule ∈ runner.enabledRules) (file : String)
    (text : List Char) :
    ∃ reordered, ofConfig Rule.standard { config with rules := order } given = .ok reordered
      ∧ AgreeOn rule file text reordered runner := by
  have known : ∀ entry ∈ order,
      ∃ old, (entry.1, old) ∈ config.rules ∧ old.options = entry.2.options := by
    intro entry listed
    exact ⟨entry.2, perm.mem_iff.1 listed, rfl⟩
  obtain ⟨reordered, made', alike, settings⟩ := exists_ofConfig_of_rules made known
  have same : runner.config = config := config_of_ofConfig made
  have runs : ∀ name,
      name ∈ reordered.config.enabledRules ↔ name ∈ runner.config.enabledRules := by
    intro name
    rw [Config.mem_enabledRules_iff, Config.mem_enabledRules_iff, settings, same]
    simp only [perm.mem_iff]
  have enabled' : rule ∈ reordered.enabledRules := by
    rw [mem_enabledRules] at enabled ⊢
    exact ⟨alike.rules ▸ enabled.1, (runs _).2 enabled.2⟩
  have setting : reordered.config.rule rule.name = runner.config.rule rule.name := by
    rw [Config.rule, Config.rule, settings, same, Entries.find?_perm distinct perm]
  exact ⟨reordered, made', alike.agreeOn (rules_of_ofConfig made) setting (fun _ => runs _)
    enabled' enabled file text⟩

end Made

/-- **Rules do not interfere.** What is reported for an enabled rule is the same when only
this rule is enabled, with `jsx-member-vars` left as it was where the rule is
`no-unused-vars`; and it does not depend on the order in which the configuration lists its
rules. -/
theorem reports_of_rule_alone (made : ofConfig Rule.standard config given = .ok runner)
    {rule : Rule} (enabled : rule ∈ runner.enabledRules) (file : String) (text : List Char) :
    (∃ alone, ofConfig Rule.standard (config.only rule) given = .ok alone
        ∧ (∀ other, other ∈ alone.enabledRules ↔ other ∈ runner.enabledRules
          ∧ (other = rule ∨ rule = Rule.unusedVariables ∧ other = Rule.tagUses))
        ∧ AgreeOn rule file text alone runner)
      ∧ (config.rules.names.Nodup → ∀ order, order.Perm config.rules →
        ∃ reordered, ofConfig Rule.standard { config with rules := order } given = .ok reordered
          ∧ AgreeOn rule file text reordered runner) := by
  obtain ⟨alone, made', agree⟩ := exists_agreeOn_only made enabled file text
  refine ⟨⟨alone, made', mem_enabledRules_only made enabled made', agree⟩, ?_⟩
  intro distinct order perm
  exact exists_agreeOn_perm made distinct perm enabled file text

end NonInterference

def tagText : List Char := "import A from 'a'; <A/>;".toList

theorem reports_of_rule_alone_tag :
    ∃ runner, ofConfig Rule.standard .recommended [] = .ok runner
      ∧ Rule.unusedVariables ∈ runner.enabledRules
      ∧ (∃ alone, ofConfig Rule.standard (Config.recommended.only Rule.unusedVariables) []
          = .ok alone ∧ AgreeOn Rule.unusedVariables "a.js" tagText alone runner)
      ∧ ∃ reordered, ofConfig Rule.standard
          { Config.recommended with rules := Config.recommended.rules.reverse } [] = .ok reordered
        ∧ AgreeOn Rule.unusedVariables "a.js" tagText reordered runner := by
  cases made : ofConfig Rule.standard .recommended [] with
  | error error =>
    have valid : (ofConfig Rule.standard .recommended []).isOk = true := by decide +kernel
    rw [made] at valid
    cases valid
  | ok runner =>
    have enabled : Rule.unusedVariables ∈ runner.enabledRules := by
      rw [mem_enabledRules, rules_of_ofConfig made, config_of_ofConfig made]
      exact ⟨by simp [Rule.standard], by decide⟩
    obtain ⟨⟨alone, made', _, agree⟩, anyOrder⟩ :=
      reports_of_rule_alone made enabled "a.js" tagText
    exact ⟨runner, rfl, enabled, ⟨alone, made', agree⟩,
      anyOrder (by decide) _ (List.reverse_perm _)⟩

-- Turning `jsx-member-vars` off as well would make a difference to `no-unused-vars`.
example :
    let recorded := fun config => (ofConfig Rule.standard config []).toOption.map fun runner =>
      ((runner.check "a.js" tagText).1.results.recordedFor Rule.unusedVariables).length
    recorded (Config.recommended.only Rule.unusedVariables) = some 0
      ∧ recorded { Config.empty with rules := [("no-unused-vars", .plain .warning)] } = some 1 := by
  decide +kernel

end Runner

end TemplateLint
