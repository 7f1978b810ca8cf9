import Mathlib.Data.List.Perm.Basic
import TemplateLint.Proofs.Diagnostic.Sort
import TemplateLint.Proofs.Run.Joining
import TemplateLint.Proofs.Run.Rules

/-!
# Putting results together

Results of files are put together one after another, and the outcome may itself be part of
further results (`Grouping`). How the files are grouped makes no difference
(`Grouping.total_fold`), because a stable sort of sorted lists is the stable sort of all
(`Diagnostic.sort_append_sort`), and the values that are kept by name are joined by an associative
operation (`combine_assoc`). So **nothing is lost and nothing comes twice**
(`Grouping.total_loses_nothing`).
-/

namespace TemplateLint

open TemplateLint.Diagnostic TemplateLint.Text

namespace Results

/-! ## Recorded problems -/

theorem flatMap_set_perm (base : Entries (List Diagnostic)) (name : String)
    (more : List Diagnostic) :
    ((base.set name ((base.find? name).elim more (· ++ more))).flatMap Prod.snd).Perm
      (base.flatMap Prod.snd ++ more) := by
  induction base with
  | nil => simp [Entries.set]
  | cons entry rest ih =>
    obtain ⟨key, listed⟩ := entry
    rw [Entries.set, Entries.find?_cons]
    by_cases same : name = key
    · subst same
      simp only [beq_self_eq_true, if_true, Option.elim_some, List.flatMap_cons,
        List.append_assoc]
      exact List.perm_append_comm.append_left _
    · have later : (key == name) = false := by simpa using Ne.symm same
      rw [later, if_neg Bool.false_ne_true, if_neg same, List.flatMap_cons, List.flatMap_cons,
        List.append_assoc]
      exact ih.append_left _

theorem flatMap_combine_perm (base added : Entries (List Diagnostic)) :
    ((combine (· ++ ·) base added).flatMap Prod.snd).Perm
      (base.flatMap Prod.snd ++ added.flatMap Prod.snd) := by
  induction added generalizing base with
  | nil => simp [combine]
  | cons entry rest ih =>
    rw [combine_cons, List.flatMap_cons, ← List.append_assoc]
    exact (ih _).trans ((flatMap_set_perm base entry.1 entry.2).append_right _)

/-! ## Extending results -/

/-- Results that could have been put together: what they keep by name has one value for each
name, and their problems are sorted. -/
structure Settled (results : Results) : Prop where
  byRule : results.byRule.names.Nodup
  times : results.times.names.Nodup
  sorted : Sorted results.diagnostics

theorem settled_empty : Settled .empty := ⟨List.nodup_nil, List.nodup_nil, .nil⟩

theorem Settled.extend {results : Results} (settled : results.Settled) (more : Results) :
    (results.extend more).Settled :=
  ⟨nodup_names_combine _ settled.byRule _, nodup_names_combine _ settled.times _, sorted_sort _⟩

theorem Settled.foldl {results : Results} (settled : results.Settled) (files : List Results) :
    (files.foldl Results.extend results).Settled := by
  induction files generalizing results with
  | nil => exact settled
  | cons file rest ih => exact ih (settled.extend file)

theorem Settled.extend_empty {results : Results} (settled : results.Settled) :
    results.extend .empty = results := by
  simp only [Results.extend, empty, List.append_nil, sort_of_sorted settled.sorted]
  rfl

theorem extend_assoc {first second : Results} (settled : first.Settled)
    (settled' : second.Settled) (third : Results) :
    (first.extend second).extend third = first.extend (second.extend third) := by
  have sorted : Diagnostic.sort (Diagnostic.sort (first.diagnostics ++ second.diagnostics)
        ++ third.diagnostics)
      = Diagnostic.sort (first.diagnostics
        ++ Diagnostic.sort (second.diagnostics ++ third.diagnostics)) := by
    rw [sort_sort_append, sort_append_sort_right, List.append_assoc]
  simp only [Results.extend, sorted, addNames_addNames, List.append_assoc,
    combine_assoc _ List.append_assoc settled.byRule settled'.byRule,
    combine_assoc _ Nat.add_assoc settled.times settled'.times]

theorem extend_foldl {base : Results} (settled : base.Settled) (files : List Results) :
    base.extend (files.foldl extend .empty) = files.foldl extend base := by
  have general : ∀ first : Results, first.Settled →
      base.extend (files.foldl extend first) = files.foldl extend (base.extend first) := by
    induction files with
    | nil => exact fun _ _ => rfl
    | cons file rest ih =>
      intro first settled'
      rw [List.foldl_cons, List.foldl_cons, ih _ (settled'.extend file),
        extend_assoc settled settled']
  rw [general .empty settled_empty, settled.extend_empty]

theorem diagnostics_foldl {base : Results} (sorted : Sorted base.diagnostics)
    (files : List Results) :
    (files.foldl extend base).diagnostics
      = Diagnostic.sort (base.diagnostics ++ files.flatMap Results.diagnostics) := by
  induction files generalizing base with
  | nil => exact ((congrArg _ (List.append_nil _)).trans (sort_of_sorted sorted)).symm
  | cons file rest ih =>
    rw [List.foldl_cons, ih (sorted_sort _), extend, sort_sort_append, List.flatMap_cons,
      List.append_assoc]

theorem recordedFor_foldl (base : Results) {files : List Results}
    (distinct : ∀ file ∈ files, file.byRule.names.Nodup) (rule : Rule) :
    (files.foldl extend base).recordedFor rule
      = base.recordedFor rule ++ files.flatMap fun file => file.recordedFor rule := by
  induction files generalizing base with
  | nil => exact (List.append_nil _).symm
  | cons file rest ih =>
    have step : (base.extend file).recordedFor rule
        = base.recordedFor rule ++ file.recordedFor rule := by
      rw [recordedFor, extend, find?_combine, joined_of_nodup _ (distinct file (.head _)),
        recordedFor, recordedFor]
      cases base.byRule.find? rule.name <;> cases file.byRule.find? rule.name <;> simp
    rw [List.foldl_cons, ih _ fun other member => distinct other (.tail _ member), step,
      List.flatMap_cons, List.append_assoc]

theorem ruleNames_foldl (base : Results) (files : List Results) :
    (files.foldl extend base).ruleNames
      = addNames base.ruleNames (files.flatMap Results.ruleNames) := by
  induction files generalizing base with
  | nil => rfl
  | cons file rest ih => rw [List.foldl_cons, ih, List.flatMap_cons, addNames_append, extend]

theorem flatMap_byRule_foldl_perm (base : Results) (files : List Results) :
    ((files.foldl extend base).byRule.flatMap Prod.snd).Perm
      (base.byRule.flatMap Prod.snd
        ++ files.flatMap fun file => file.byRule.flatMap Prod.snd) := by
  induction files generalizing base with
  | nil => simp
  | cons file rest ih =>
    rw [List.foldl_cons, List.flatMap_cons, ← List.append_assoc]
    exact (ih _).trans ((flatMap_combine_perm base.byRule file.byRule).append_right _)

theorem errorCount_add_warningCount (results : Results) :
    results.errorCount + results.warningCount = results.totalCount := by
  have parts : results.ofSeverity .warning
      = results.diagnostics.filter fun diagnostic => !decide (diagnostic.severity = .error) := by
    refine List.filter_congr fun diagnostic _ => ?_
    cases diagnostic.severity <;> rfl
  rw [errorCount, warningCount, totalCount, parts, ofSeverity,
    ← List.length_eq_length_filter_add]

end Results

/-! ## Groups of results -/

/-- Results of files, and results that are put together from others, to any depth. -/
inductive Grouping where
  | file (results : Results)
  | fold (parts : List Grouping)

namespace Grouping

mutual

/-- The results of all files of a group, its parts put together one after another. -/
def total : Grouping → Results
  | file results => results
  | fold parts => totalFrom .empty parts

def totalFrom (base : Results) : List Grouping → Results
  | [] => base
  | part :: rest => totalFrom (base.extend part.total) rest

end

mutual

/-- The results of the files in order. -/
def leaves : Grouping → List Results
  | file results => [results]
  | fold parts => leavesOf parts

def leavesOf : List Grouping → List Results
  | [] => []
  | part :: rest => part.leaves ++ leavesOf rest

end

mutual

theorem extend_total {base : Results} (settled : base.Settled) : (part : Grouping) →
    base.extend part.total = part.leaves.foldl Results.extend base
  | file _ => rfl
  | fold parts => by
    rw [total, totalFrom_eq Results.settled_empty parts, leaves]
    exact Results.extend_foldl settled _

theorem totalFrom_eq {base : Results} (settled : base.Settled) : (parts : List Grouping) →
    totalFrom base parts = (leavesOf parts).foldl Results.extend base
  | [] => rfl
  | part :: rest => by
    rw [totalFrom, extend_total settled part, leavesOf, List.foldl_append]
    exact totalFrom_eq (settled.foldl _) rest

end

/-- Results are added up file by file, however they are grouped. -/
theorem total_fold (parts : List Grouping) :
    (fold parts).total = (leavesOf parts).foldl Results.extend .empty :=
  totalFrom_eq Results.settled_empty parts

end Grouping

/-! ## Files that are checked -/

/-- A file with the runner that checks it. -/
structure FileCheck where
  runner : Runner
  file : String
  text : List Char

namespace FileCheck

def results (check : FileCheck) : Results := (check.runner.check check.file check.text).1.results

/-- The diagnostic of a file that cannot be read. -/
def failures (check : FileCheck) : List Diagnostic :=
  match Grammar.parse (String.ofList check.text) with
  | .error _ => check.results.diagnostics
  | .ok _ => []

def DistinctRules (check : FileCheck) : Prop := (check.runner.rules.map Rule.name).Nodup

theorem of_mem_failures {check : FileCheck} {failure : Diagnostic}
    (member : failure ∈ check.failures) :
    failure.errorId = parseErrorId ∧ failure.rule = ""
      ∧ failure.location.file = check.file := by
  unfold failures at member
  split at member
  · next error unreadable =>
    simp only [results, Runner.check, Runner.checkText, unreadable, Runner.parseFailure] at member
    rw [List.mem_singleton.1 (SuppressionStore.mem_filter.1 member).1]
    exact ⟨rfl, rfl, rfl⟩
  · exact absurd member List.not_mem_nil

theorem byRule_of_unreadable (check : FileCheck) {error : Syntax.SyntaxError}
    (unreadable : Grammar.parse (String.ofList check.text) = .error error) :
    check.results.byRule = [] := by
  simp only [results, Runner.check, Runner.checkText, unreadable, Runner.parseFailure]
  rfl

theorem exists_groups {check : FileCheck} (distinct : check.DistinctRules) {root : Syntax.Node}
    (readable : Grammar.parse (String.ofList check.text) = .ok root) :
    ∃ groups, check.results = Runner.fileResults check.file groups
      ∧ check.results.byRule = groups ∧ (Entries.names groups).Nodup := by
  simp only [results, Runner.check, Runner.checkText, readable]
  have apart : ∀ context, (Entries.names ((check.runner.withDirectives check.file
      (Directive.readDirectives check.text)).runRules context .empty
        (check.runner.withDirectives check.file
          (Directive.readDirectives check.text)).enabledRules).1).Nodup := by
    intro context
    rw [Runner.names_runRules]
    exact distinct.sublist (List.filter_sublist.map Rule.name)
  exact ⟨_, rfl, Entries.layer_of_disjoint (apart _), apart _⟩

theorem diagnostics_perm {check : FileCheck} (distinct : check.DistinctRules) :
    check.results.diagnostics.Perm
      (check.results.byRule.flatMap Prod.snd ++ check.failures) := by
  unfold failures
  split
  · next error unreadable =>
    rw [byRule_of_unreadable check unreadable]
    exact .refl _
  · next root readable =>
    obtain ⟨groups, same, recorded, _⟩ := exists_groups distinct readable
    rw [recorded, same, List.append_nil]
    exact sort_perm _

theorem nodup_names_byRule {check : FileCheck} (distinct : check.DistinctRules) :
    check.results.byRule.names.Nodup := by
  cases read : Grammar.parse (String.ofList check.text) with
  | error error =>
    rw [byRule_of_unreadable check read]
    exact List.nodup_nil
  | ok root =>
    obtain ⟨groups, _, recorded, apart⟩ := exists_groups distinct read
    exact recorded ▸ apart

end FileCheck

namespace Runner

/-- The checks of several files, each with the runner that the earlier ones leave. -/
def checks (runner : Runner) : List (String × List Char) → List FileCheck
  | [] => []
  | (file, text) :: rest => ⟨runner, file, text⟩ :: (runner.check file text).2.checks rest

theorem results_checkAll (runner : Runner) (base : Results) (sources : List (String × List Char)) :
    (runner.checkAll base sources).results
      = ((runner.checks sources).map FileCheck.results).foldl Results.extend base := by
  induction sources generalizing runner base with
  | nil => rfl
  | cons source rest ih => exact ih _ _

theorem distinctRules_checks {runner : Runner} (distinct : (runner.rules.map Rule.name).Nodup)
    (sources : List (String × List Char)) :
    ∀ check ∈ runner.checks sources, check.DistinctRules := by
  induction sources generalizing runner with
  | nil => exact fun _ member => absurd member List.not_mem_nil
  | cons source rest ih =>
    intro check member
    rcases List.mem_cons.1 member with rfl | later
    · exact distinct
    · have next : ((runner.check source.1 source.2).2.rules.map Rule.name).Nodup := distinct
      exact ih next check later

end Runner

namespace Grouping

theorem leavesOf_map_file (files : List Results) : leavesOf (files.map file) = files := by
  induction files with
  | nil => rfl
  | cons results rest ih => exact congrArg (results :: ·) ih

/-- Nothing is lost and nothing comes twice. Whatever way results are grouped, together they
have the problems of the files in one stable sort, for each rule what the files record for it
in order, the name of each rule once where it first ran, and as many problems as errors and
warnings. Where the results are those of checked files, the problems are those recorded for
rules and those of files that cannot be read. A run over files puts them together in turn. -/
theorem total_loses_nothing (parts : List Grouping) :
    (fold parts).total = (leavesOf parts).foldl Results.extend .empty
    ∧ (fold parts).total.diagnostics
        = Diagnostic.sort ((leavesOf parts).flatMap Results.diagnostics)
    ∧ Diagnostic.Sorted (fold parts).total.diagnostics
    ∧ ((∀ file ∈ leavesOf parts, file.byRule.names.Nodup) → ∀ rule : Rule,
        (fold parts).total.recordedFor rule
          = (leavesOf parts).flatMap fun file => file.recordedFor rule)
    ∧ (fold parts).total.ruleNames = ((leavesOf parts).flatMap Results.ruleNames).eraseDups
    ∧ (fold parts).total.errorCount + (fold parts).total.warningCount
        = (fold parts).total.totalCount
    ∧ (∀ checks : List FileCheck, (∀ check ∈ checks, check.DistinctRules) →
        leavesOf parts = checks.map FileCheck.results →
        (fold parts).total.diagnostics.Perm
            ((fold parts).total.byRule.flatMap Prod.snd ++ checks.flatMap FileCheck.failures)
          ∧ (∀ rule : Rule, (fold parts).total.recordedFor rule
              = checks.flatMap fun check => check.results.recordedFor rule)
          ∧ ∀ check ∈ checks, ∀ failure ∈ check.failures,
              failure.errorId = parseErrorId ∧ failure.rule = ""
                ∧ failure.location.file = check.file)
    ∧ ∀ (runner : Runner) (sources : List (String × List Char)),
        (runner.checkAll .empty sources).results
          = (fold (((runner.checks sources).map FileCheck.results).map file)).total := by
  have diagnostics : (fold parts).total.diagnostics
      = Diagnostic.sort ((leavesOf parts).flatMap Results.diagnostics) := by
    rw [total_fold, Results.diagnostics_foldl Results.settled_empty.sorted]
    rfl
  have recordedFor : (∀ file ∈ leavesOf parts, file.byRule.names.Nodup) → ∀ rule : Rule,
      (fold parts).total.recordedFor rule
        = (leavesOf parts).flatMap fun file => file.recordedFor rule := by
    intro distinct rule
    rw [total_fold, Results.recordedFor_foldl .empty distinct]
    rfl
  refine ⟨total_fold parts, diagnostics, diagnostics ▸ sorted_sort _, recordedFor, ?_,
    Results.errorCount_add_warningCount _, fun checks distinct same => ⟨?_, fun rule => ?_, ?_⟩,
    fun runner sources => ?_⟩
  · rw [total_fold, Results.ruleNames_foldl]
    exact Results.addNames_nil _
  · have recorded := Results.flatMap_byRule_foldl_perm .empty (leavesOf parts)
    rw [← total_fold, same, List.flatMap_map] at recorded
    rw [diagnostics, same, List.flatMap_map]
    calc Diagnostic.sort (checks.flatMap fun check => check.results.diagnostics)
      _ |>.Perm (checks.flatMap fun check => check.results.diagnostics) := sort_perm _
      _ |>.Perm (checks.flatMap fun check =>
            check.results.byRule.flatMap Prod.snd ++ check.failures) :=
          List.Perm.flatMap_left checks fun check member =>
            FileCheck.diagnostics_perm (distinct check member)
      _ |>.Perm ((checks.flatMap fun check => check.results.byRule.flatMap Prod.snd)
            ++ checks.flatMap FileCheck.failures) :=
          (List.flatMap_append_perm checks _ _).symm
      _ |>.Perm _ := recorded.symm.append_right _
  · rw [recordedFor, same, List.flatMap_map]
    intro file member
    obtain ⟨check, listed, rfl⟩ := List.mem_map.1 (same ▸ member)
    exact FileCheck.nodup_names_byRule (distinct check listed)
  · exact fun check _ failure member => FileCheck.of_mem_failures member
  · rw [total_fold, leavesOf_map_file, Runner.results_checkAll]

/-- Files with a problem, that cannot be read, and with the same problem again. -/
def threeSources : List (String × List Char) :=
  [("b.js", "y;".toList), ("c.js", "(".toList), ("a.js", "y;".toList)]

/-- Three results, of which the last two are put together first. -/
def paired : List Results → List Grouping
  | first :: rest => [file first, fold (rest.map file)]
  | [] => []

theorem total_loses_nothing_paired :
    ∃ runner, Runner.ofConfig Rule.standard .recommended [] = .ok runner
      ∧ (∀ check ∈ runner.checks threeSources, check.DistinctRules)
      ∧ leavesOf (paired ((runner.checks threeSources).map FileCheck.results))
        = (runner.checks threeSources).map FileCheck.results
      ∧ (fold (paired ((runner.checks threeSources).map FileCheck.results))).total
        = (runner.checkAll .empty threeSources).results
      ∧ (runner.checkAll .empty threeSources).results.diagnostics.Perm
          ((runner.checkAll .empty threeSources).results.byRule.flatMap Prod.snd
            ++ (runner.checks threeSources).flatMap FileCheck.failures) := by
  cases made : Runner.ofConfig Rule.standard .recommended [] with
  | error error =>
    have valid : (Runner.ofConfig Rule.standard .recommended []).isOk = true := by decide +kernel
    rw [made] at valid
    cases valid
  | ok runner =>
    have distinct : ∀ check ∈ runner.checks threeSources, check.DistinctRules :=
      Runner.distinctRules_checks (Runner.rules_of_ofConfig made ▸ Rule.nodup_names_standard) _
    have listed : leavesOf (paired ((runner.checks threeSources).map FileCheck.results))
        = (runner.checks threeSources).map FileCheck.results := rfl
    obtain ⟨grouped, _, _, _, _, _, checked, _⟩ := total_loses_nothing
      (paired ((runner.checks threeSources).map FileCheck.results))
    have same : (fold (paired ((runner.checks threeSources).map FileCheck.results))).total
        = (runner.checkAll .empty threeSources).results := by
      rw [grouped, listed, Runner.results_checkAll]
    exact ⟨runner, rfl, distinct, listed, same, same ▸ (checked _ distinct listed).1⟩

end Grouping

end TemplateLint
