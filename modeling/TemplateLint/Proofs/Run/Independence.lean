import TemplateLint.Proofs.Diagnostic.Sort
import TemplateLint.Proofs.Diagnostic.Suppression
import TemplateLint.Run.Runner

/-!
# What the files of a run have to do with each other

A runner carries from file to file the suppressions that the directives state. A directive for a
whole file is kept with the name of its file as a pattern, which may stand for other files: `a.js`
also stands for `lib/a.js`. So a file is reported on as if it were alone if and only if no earlier
file of such a name turns off a problem of it (`Runner.checkAll_eq_alone_iff`).
-/

namespace TemplateLint

open TemplateLint.Diagnostic TemplateLint.Directive

variable {diagnostic : Diagnostic} {file : String} (runner : Runner)

/-! ## Suppressions one after another -/

namespace Diagnostic

namespace Suppressions

theorem suppresses_append (first second : Suppressions) (diagnostic : Diagnostic) :
    (first ++ second).suppresses diagnostic
      = (first.suppresses diagnostic || second.suppresses diagnostic) :=
  List.any_append

theorem filter_append_middle (first middle last : Suppressions) (diagnostics : List Diagnostic) :
    (first ++ middle ++ last).filter diagnostics
      = middle.filter ((first ++ last).filter diagnostics) := by
  simp only [filter, List.filter_filter]
  refine List.filter_congr fun diagnostic _ => ?_
  simp only [suppresses_append]
  cases first.suppresses diagnostic <;> cases middle.suppresses diagnostic <;> rfl

end Suppressions

namespace SuppressionStore

theorem mem_filter {store : SuppressionStore} {diagnostics : List Diagnostic} :
    diagnostic ∈ store.filter diagnostics
      ↔ diagnostic ∈ diagnostics ∧ store.suppresses diagnostic = false := by
  simp [filter]

theorem filter_eq_facts (store : SuppressionStore) (diagnostics : List Diagnostic) :
    store.filter diagnostics = store.facts.filter diagnostics := by
  simp only [filter, Suppressions.filter, suppresses_eq_facts]

@[simp]
theorem filter_empty (diagnostics : List Diagnostic) :
    SuppressionStore.empty.filter diagnostics = diagnostics := by
  rw [filter_eq_facts]
  exact List.filter_eq_self.2 fun _ _ => rfl

/-- What the directives of a file suppress is added to what other facts do. -/
theorem filter_loadDirectives (store : SuppressionStore) (file : String) (directives : Directives)
    (others : Suppressions) (diagnostics : List Diagnostic) :
    ((store.loadDirectives file directives).facts ++ others).filter diagnostics
      = (store.facts ++ (Suppressions.ofDirectives file directives ++ others)).filter
        diagnostics := by
  refine List.filter_congr fun diagnostic _ => congrArg (!·) (Bool.eq_iff_iff.2 ?_)
  simp only [Suppressions.suppresses, List.any_eq_true, mem_facts_loadDirectives, List.mem_append,
    or_assoc]

end SuppressionStore

end Diagnostic

/-! ## One file -/

/-- A rule that gives its problems on every file. -/
def Rule.NeverFails (rule : Rule) : Prop :=
  ∀ context options shared, ∃ outcome, rule.check context options shared = .ok outcome

theorem Rule.neverFails_of_mem_standard {rule : Rule} (member : rule ∈ Rule.standard) :
    rule.NeverFails := by
  intro context options shared
  simp only [Rule.standard, List.mem_cons, List.not_mem_nil, or_false] at member
  rcases member with rfl | rfl | rfl | rfl <;> exact ⟨_, rfl⟩

namespace Runner

/-- The runner without suppressions. -/
def bare (runner : Runner) : Runner := { runner with suppressions := .empty }

/-- What is found in a file, whether or not it is to be reported. -/
def problems (runner : Runner) (file : String) (text : List Char) : List Diagnostic :=
  (runner.bare.checkText (runner.knownNames (readDirectives text)) file text).results.diagnostics

theorem runRule_bare (context : Context) (shared : Shared) {rule : Rule} (never : rule.NeverFails) :
    (runner.runRule context shared rule).shared = (runner.bare.runRule context shared rule).shared
      ∧ (runner.runRule context shared rule).diagnostics
        = runner.suppressions.filter (runner.bare.runRule context shared rule).diagnostics := by
  obtain ⟨⟨after, found⟩, checked⟩ := never context (runner.config.rule rule.name).options shared
  simp only [runRule, bare, checked, SuppressionStore.filter_empty, true_and]
  rfl

theorem runRules_bare (context : Context) (shared : Shared) {rules : List Rule}
    (never : ∀ rule ∈ rules, rule.NeverFails) :
    (runner.runRules context shared rules).1.flatMap Prod.snd
      = runner.suppressions.filter
        ((runner.bare.runRules context shared rules).1.flatMap Prod.snd) := by
  induction rules generalizing shared with
  | nil => rfl
  | cons rule rest ih =>
    obtain ⟨sameShared, found⟩ := runner.runRule_bare context shared (never rule (.head _))
    have later := ih (runner.bare.runRule context shared rule).shared fun other member =>
      never other (.tail _ member)
    simp only [runRules, List.flatMap_cons, found, sameShared, later]
    exact (List.filter_append ..).symm

theorem checkText_bare (never : ∀ rule ∈ runner.rules, rule.NeverFails)
    (names : List String) (file : String) (text : List Char) :
    (runner.checkText names file text).results.diagnostics
      = runner.suppressions.filter (runner.bare.checkText names file text).results.diagnostics := by
  unfold checkText
  cases Grammar.parse (String.ofList text) with
  | error error => simp [parseFailure, bare]
  | ok root =>
    have enabled : ∀ rule ∈ runner.enabledRules, rule.NeverFails := fun rule member =>
      never rule (List.mem_filter.1 member).1
    simp only [fileResults, runner.runRules_bare _ _ enabled]
    exact (filter_sort _ _).symm

theorem sorted_problems (file : String) (text : List Char) :
    Sorted (runner.problems file text) := by
  unfold problems checkText
  cases Grammar.parse (String.ofList text) with
  | error error => simp [parseFailure, bare, Sorted]
  | ok root => exact sorted_sort _

theorem file_of_mem_runRules (context : Context) (shared : Shared) (rules : List Rule)
    (member : diagnostic ∈ (runner.runRules context shared rules).1.flatMap Prod.snd) :
    diagnostic.location.file = context.file := by
  induction rules generalizing shared with
  | nil => simp [runRules] at member
  | cons rule rest ih =>
    simp only [runRules, List.flatMap_cons, List.mem_append] at member
    rcases member with here | later
    · unfold runRule at here
      split at here
      · obtain ⟨problem, _, rfl⟩ := List.mem_map.1 (SuppressionStore.mem_filter.1 here).1
        rfl
      · rw [List.mem_singleton.1 here]
        rfl
    · exact ih _ later

theorem file_of_mem_problems (file : String) (text : List Char)
    (member : diagnostic ∈ runner.problems file text) :
    diagnostic.location.file = file := by
  unfold problems checkText at member
  cases parsed : Grammar.parse (String.ofList text) with
  | error error =>
    simp only [parsed, parseFailure, bare, SuppressionStore.filter_empty, List.mem_singleton] at member
    rw [member]
  | ok root =>
    simp only [parsed, fileResults, mem_sort] at member
    exact file_of_mem_runRules _ _ _ _ member

/-- **The report on a file.** It is what is found in the file, less what the suppressions of
the runner and the directives of the file take away. -/
theorem diagnostics_check (never : ∀ rule ∈ runner.rules, rule.NeverFails)
    (file : String) (text : List Char) :
    (runner.check file text).1.results.diagnostics
      = (runner.suppressions.facts ++ Suppressions.ofDirectives file (readDirectives text)).filter
        (runner.problems file text) := by
  have reported := (runner.withDirectives file (readDirectives text)).checkText_bare never
    (runner.knownNames (readDirectives text)) file text
  have loaded := runner.suppressions.filter_loadDirectives file (readDirectives text) []
    (runner.problems file text)
  simp only [List.append_nil, ← SuppressionStore.filter_eq_facts] at loaded
  exact reported.trans loaded

/-! ## Many files -/

/-- The suppressions that files state about themselves. -/
def stated (files : List (String × List Char)) : Suppressions :=
  files.flatMap fun (file, text) => Suppressions.ofDirectives file (readDirectives text)

def diagnosticsOf (file : String) (results : Results) : List Diagnostic :=
  results.diagnostics.filter fun diagnostic => diagnostic.location.file == file

theorem diagnosticsOf_extend_of_other {results more : Results} (sorted : Sorted results.diagnostics)
    (other : ∀ diagnostic ∈ more.diagnostics, diagnostic.location.file ≠ file) :
    diagnosticsOf file (results.extend more) = diagnosticsOf file results := by
  have none_more :
      more.diagnostics.filter (fun diagnostic => diagnostic.location.file == file) = [] :=
    List.filter_eq_nil_iff.2 fun diagnostic member => by simpa using other diagnostic member
  simp only [diagnosticsOf, Results.extend]
  rw [filter_sort, List.filter_append, none_more, List.append_nil]
  exact sort_of_sorted (sorted.filter _)

theorem diagnosticsOf_extend_of_same {results more : Results}
    (fresh : diagnosticsOf file results = []) (sorted : Sorted more.diagnostics)
    (same : ∀ diagnostic ∈ more.diagnostics, diagnostic.location.file = file) :
    diagnosticsOf file (results.extend more) = more.diagnostics := by
  have all_more : more.diagnostics.filter (fun diagnostic => diagnostic.location.file == file)
      = more.diagnostics :=
    List.filter_eq_self.2 fun diagnostic member => by simpa using same diagnostic member
  unfold diagnosticsOf at fresh
  simp only [diagnosticsOf, Results.extend]
  rw [filter_sort, List.filter_append, fresh, all_more, List.nil_append]
  exact sort_of_sorted sorted

section Runs

variable (runner : Runner) (never : ∀ rule ∈ runner.rules, rule.NeverFails)

include never

theorem sorted_check (file : String) (text : List Char) :
    Sorted (runner.check file text).1.results.diagnostics := by
  rw [runner.diagnostics_check never]
  exact (runner.sorted_problems file text).filter _

theorem file_of_mem_check {text : List Char}
    (member : diagnostic ∈ (runner.check file text).1.results.diagnostics) :
    diagnostic.location.file = file := by
  rw [runner.diagnostics_check never] at member
  exact runner.file_of_mem_problems file text (List.mem_filter.1 member).1

theorem diagnosticsOf_checkAll_of_other {files : List (String × List Char)}
    (absent : file ∉ files.map Prod.fst) (results : Results) (sorted : Sorted results.diagnostics) :
    diagnosticsOf file (runner.checkAll results files).results = diagnosticsOf file results := by
  induction files generalizing runner results with
  | nil => rfl
  | cons head rest ih =>
    obtain ⟨name, text⟩ := head
    have differ : file ≠ name := List.ne_of_not_mem_cons absent
    have later := ih (runner.check name text).2 never (List.not_mem_of_not_mem_cons absent)
      (results.extend (runner.check name text).1.results) (sorted_sort _)
    rw [checkAll, later]
    refine diagnosticsOf_extend_of_other sorted fun diagnostic member same => ?_
    exact differ (same.symm.trans (runner.file_of_mem_check never member))

/-- **A file in a run.** What is reported on it is what is found in it, less what the
runner, the files before it and its own directives suppress. -/
theorem diagnosticsOf_checkAll (text : List Char)
    {before after : List (String × List Char)} (notBefore : file ∉ before.map Prod.fst)
    (notAfter : file ∉ after.map Prod.fst) (results : Results)
    (sorted : Sorted results.diagnostics) (fresh : diagnosticsOf file results = []) :
    diagnosticsOf file (runner.checkAll results (before ++ (file, text) :: after)).results
      = (runner.suppressions.facts ++ stated before
          ++ Suppressions.ofDirectives file (readDirectives text)).filter
        (runner.problems file text) := by
  induction before generalizing runner results with
  | nil =>
    rw [List.nil_append, checkAll,
      (runner.check file text).2.diagnosticsOf_checkAll_of_other never notAfter _ (sorted_sort _),
      diagnosticsOf_extend_of_same fresh (runner.sorted_check never file text)
        (fun _ => runner.file_of_mem_check never),
      runner.diagnostics_check never]
    simp [stated]
  | cons head rest ih =>
    obtain ⟨name, earlier⟩ := head
    have differ : file ≠ name := List.ne_of_not_mem_cons notBefore
    have other : ∀ diagnostic ∈ (runner.check name earlier).1.results.diagnostics,
        diagnostic.location.file ≠ file := fun diagnostic member same =>
      differ (same.symm.trans (runner.file_of_mem_check never member))
    have later := ih (runner.check name earlier).2 never (List.not_mem_of_not_mem_cons notBefore)
      (results.extend (runner.check name earlier).1.results) (sorted_sort _)
      ((diagnosticsOf_extend_of_other sorted other).trans fresh)
    rw [List.cons_append, checkAll, later, List.append_assoc]
    simp only [stated, List.flatMap_cons, List.append_assoc]
    exact runner.suppressions.filter_loadDirectives name (readDirectives earlier) _ _

end Runs

/-! ## Influence of earlier files -/

/-- Whether the directives of some files turn off a problem wherever it is located: one of
them is for its whole file, names the problem, and the name of its file, read as a pattern,
stands for the file of the problem. -/
def silences (files : List (String × List Char)) (diagnostic : Diagnostic) : Bool :=
  files.any fun (name, text) =>
    (readDirectives text).file.any fun id =>
      idNames id diagnostic && fileMatches name diagnostic.location.file

theorem suppresses_ofDirectives_of_other {name : String}
    (other : name ≠ diagnostic.location.file) (directives : Directives) :
    (Suppressions.ofDirectives name directives).suppresses diagnostic
      = directives.file.any fun id =>
        idNames id diagnostic && fileMatches name diagnostic.location.file := by
  simp [Suppressions.suppresses, Suppressions.ofDirectives, List.any_flatMap, List.any_map,
    Function.comp_def, Suppression.applies, other]

theorem suppresses_stated {files : List (String × List Char)}
    (absent : diagnostic.location.file ∉ files.map Prod.fst) :
    (stated files).suppresses diagnostic = silences files diagnostic := by
  induction files with
  | nil => rfl
  | cons head rest ih =>
    obtain ⟨name, text⟩ := head
    have other : name ≠ diagnostic.location.file := (List.ne_of_not_mem_cons absent).symm
    have later := ih (List.not_mem_of_not_mem_cons absent)
    simp only [stated, List.flatMap_cons, silences, List.any_cons] at later ⊢
    rw [Suppressions.suppresses_append, suppresses_ofDirectives_of_other other, later]

theorem rules_of_ofConfig {rules : List Rule} {config : Config} {given : Suppressions}
    {runner : Runner} (made : ofConfig rules config given = .ok runner) : runner.rules = rules := by
  simp only [ofConfig, bind, Except.bind] at made
  split at made
  · cases made
  split at made
  · cases made
  split at made
  · cases made
  cases made
  rfl

theorem diagnosticsOf_checkAll_eq_filter {runner : Runner}
    (never : ∀ rule ∈ runner.rules, rule.NeverFails) (text : List Char)
    {before after : List (String × List Char)} (notBefore : file ∉ before.map Prod.fst)
    (notAfter : file ∉ after.map Prod.fst) :
    diagnosticsOf file (runner.checkAll .empty (before ++ (file, text) :: after)).results
      = (runner.check file text).1.results.diagnostics.filter
        fun diagnostic => !silences before diagnostic := by
  have inRun := runner.diagnosticsOf_checkAll never text notBefore notAfter .empty
    List.Pairwise.nil rfl
  rw [inRun, Suppressions.filter_append_middle, ← runner.diagnostics_check never]
  refine List.filter_congr fun diagnostic member => ?_
  have located := runner.file_of_mem_check never member
  rw [suppresses_stated (located ▸ notBefore)]

/-- **When files do not influence each other.** In a run over files of distinct names, what
is reported on a file is what is reported on it alone, less what the directives of the files
before it silence; so it is the same if and only if they silence nothing that is reported
on it alone. -/
theorem checkAll_eq_alone_iff {config : Config} {given : Suppressions} {runner : Runner}
    (made : ofConfig Rule.standard config given = .ok runner)
    (before after : List (String × List Char)) {file : String} {text : List Char}
    (distinct : ((before ++ (file, text) :: after).map Prod.fst).Nodup) :
    diagnosticsOf file (runner.checkAll .empty (before ++ (file, text) :: after)).results
        = (runner.check file text).1.results.diagnostics.filter
          (fun diagnostic => !silences before diagnostic)
      ∧ (diagnosticsOf file (runner.checkAll .empty (before ++ (file, text) :: after)).results
          = (runner.check file text).1.results.diagnostics
        ↔ ∀ diagnostic ∈ (runner.check file text).1.results.diagnostics,
          silences before diagnostic = false) := by
  have never : ∀ rule ∈ runner.rules, rule.NeverFails := fun rule member =>
    Rule.neverFails_of_mem_standard (rules_of_ofConfig made ▸ member)
  rw [List.map_append, List.map_cons, List.nodup_append, List.nodup_cons] at distinct
  obtain ⟨_, ⟨notAfter, _⟩, apart⟩ := distinct
  have notBefore : file ∉ before.map Prod.fst := fun member => apart file member file (.head _) rfl
  have reported := diagnosticsOf_checkAll_eq_filter never text notBefore notAfter
  refine ⟨reported, ?_⟩
  rw [reported, List.filter_eq_self]
  simp only [Bool.not_eq_true']

def silentText : List Char := "/* twistlint-disable */".toList

def strayText : List Char := "y;".toList

theorem checkAll_eq_alone_iff_library :
    ∃ runner, ofConfig Rule.standard .recommended [] = .ok runner
      ∧ (diagnosticsOf "lib/a.js"
            (runner.checkAll .empty [("a.js", silentText), ("lib/a.js", strayText)]).results
          = (runner.check "lib/a.js" strayText).1.results.diagnostics
        ↔ ∀ diagnostic ∈ (runner.check "lib/a.js" strayText).1.results.diagnostics,
          silences [("a.js", silentText)] diagnostic = false) := by
  cases made : ofConfig Rule.standard .recommended [] with
  | error error =>
    have valid : (ofConfig Rule.standard .recommended []).isOk = true := by decide +kernel
    rw [made] at valid
    cases valid
  | ok runner =>
    refine ⟨runner, rfl, ?_⟩
    have distinct : ["a.js", "lib/a.js"].Nodup := by decide
    exact (checkAll_eq_alone_iff made [("a.js", silentText)] [] distinct).2

/-- A file that turns everything off keeps the problem of a file in another directory from
being reported. -/
theorem checkAll_ne_alone :
    (ofConfig Rule.standard .recommended []).toOption.map (fun runner =>
        ((runner.check "lib/a.js" strayText).1.results.diagnostics.map Diagnostic.text,
          (diagnosticsOf "lib/a.js"
            (runner.checkAll .empty [("a.js", silentText), ("lib/a.js", strayText)]).results).map
            Diagnostic.text))
      = some (["lib/a.js:1:1: error: 'y' is not defined. [undefinedIdentifier]"], []) := by
  decide +kernel

end Runner

end TemplateLint
