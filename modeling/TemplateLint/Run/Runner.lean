import TemplateLint.Config.Read
import TemplateLint.Diagnostic.Suppression
import TemplateLint.Grammar.Parse
import TemplateLint.Rule.Standard
import TemplateLint.Run.Log
import TemplateLint.Run.Results

/-!
# Checking files

A runner can only be made from a configuration in which all is known and well formed
(`Runner.ofConfig`), so that nothing about the configuration can go wrong later.

Checking a file (`Runner.check`) reads its directives, then its syntax, and then runs the enabled
rules one after another. A file that cannot be read gives one problem, and so does a rule that
fails. The suppressions in the directives of a file stay with the runner.
-/

namespace TemplateLint

open TemplateLint.Decorator TemplateLint.Diagnostic TemplateLint.Directive
  TemplateLint.Scope TemplateLint.Syntax TemplateLint.Text

/-- What is the same for all files of a run, and what is not to be reported. -/
structure Runner where
  config : Config
  rules : List Rule
  environments : List Environment
  registry : Registry
  suppressions : SuppressionStore

def parseErrorId : String := "parseError"

def ruleFailureId : String := "checkerInternalError"

/-! ## Making a runner -/

namespace Rule

/-- Refuses options that a rule does not have, and options that are not flags. -/
def checkOptions (rule : Rule) : Entries Json → Except ConfigError Unit
  | [] => .ok ()
  | (name, value) :: rest =>
    if !rule.flags.contains name then .error (.unknownOption rule.name name)
    else
      match value with
      | .bool _ => checkOptions rule rest
      | _ => .error (.optionNotAFlag rule.name name)

/-- Refuses settings of unknown rules and options that they do not have. -/
def checkSettings (rules : List Rule) : Entries RuleSetting → Except ConfigError Unit
  | [] => .ok ()
  | (name, setting) :: rest => do
    match find? rules name with
    | none => throw (.unknownRule name)
    | some rule => rule.checkOptions setting.options
    checkSettings rules rest

end Rule

namespace Runner

/-- The suppressions of a configuration. -/
def configured (config : Config) : Suppressions :=
  config.suppressions.flatMap fun (id, patterns) => patterns.map fun pattern => .inFiles pattern id

/-- The runner of a configuration. Whatever is wrong with it is refused here. -/
def ofConfig (rules : List Rule) (config : Config) (suppressions : Suppressions) :
    Except ConfigError Runner := do
  let environments ← config.validate (some (rules.map Rule.name))
  Rule.checkSettings rules config.rules
  let registry ← config.registry.mapError .table
  return { config, rules, environments, registry
           suppressions := (suppressions ++ configured config : Suppressions) }

def enabledRules (runner : Runner) : List Rule :=
  runner.rules.filter fun rule => runner.config.enabledRules.contains rule.name

/-! ## Directives -/

/-- The ids that a comment may name. -/
def knownIds (runner : Runner) : List String :=
  wildcard :: parseErrorId :: runner.rules.flatMap fun rule => rule.name :: rule.errorIds

def idRemarks (runner : Runner) (file : String) (directives : Directives) : List LogEntry :=
  let unknown := directives.mentioned.eraseDups.filter fun id => !runner.knownIds.contains id
  (sortNames unknown).map fun id =>
    ⟨.warning, file ++ ": suppression comment names unknown rule " ++ quote id⟩

def environmentRemarks (file : String) (directives : Directives) : List LogEntry :=
  directives.environments.filterMap fun name =>
    match Environment.ofName? name with
    | some _ => none
    | none =>
      some ⟨.warning, file ++ ": unknown environment " ++ quote name ++ " in eslint-env comment"⟩

/-- The globals of a file: those of environments, of the configuration and of directives. -/
def knownNames (runner : Runner) (directives : Directives) : List String :=
  let environments := runner.environments ++ directives.environments.filterMap Environment.ofName?
  (((globalsFor environments).layer runner.config.globals).layer directives.globals).names

/-- The runner that knows the suppressions of a file. -/
def withDirectives (runner : Runner) (file : String) (directives : Directives) : Runner :=
  { runner with suppressions := runner.suppressions.loadDirectives file directives }

/-! ## Rules -/

/-- The configured severity, or that of the rule. -/
def severity (runner : Runner) (rule : Rule) : Severity :=
  (runner.config.rule rule.name).severity?.getD rule.defaultSeverity

/-- A problem of a rule, located and with its severity. -/
def diagnose (runner : Runner) (context : Context) (rule : Rule) (problem : Problem) :
    Diagnostic :=
  let position := context.index.position problem.start
  { errorId := problem.errorId, message := problem.message, severity := runner.severity rule
    location := ⟨context.file, position.line, position.column⟩
    rule := rule.name, nodeType := problem.nodeType }

/-- What is reported for a rule that fails. -/
def ruleFailure (file : String) (rule : Rule) (reason : String) : Diagnostic :=
  { errorId := ruleFailureId, message := "Rule '" ++ rule.name ++ "' failed: " ++ reason
    severity := .error, location := ⟨file, 1, 1⟩, rule := rule.name, nodeType := "" }

structure RuleOutcome where
  diagnostics : List Diagnostic
  shared : Shared
  log : List LogEntry

/-- Runs a rule. One that fails is reported and changes nothing shared. -/
def runRule (runner : Runner) (context : Context) (shared : Shared) (rule : Rule) : RuleOutcome :=
  match rule.check context (runner.config.rule rule.name).options shared with
  | .ok (shared, problems) =>
    ⟨runner.suppressions.filter (problems.map (runner.diagnose context rule)), shared, []⟩
  | .error reason =>
    ⟨[ruleFailure context.file rule reason], shared,
      [⟨.warning, context.file ++ ": rule " ++ rule.name ++ " failed: " ++ reason⟩]⟩

/-- Runs rules in turn, each on the state the last one left. -/
def runRules (runner : Runner) (context : Context) (shared : Shared) :
    List Rule → List (String × List Diagnostic) × List LogEntry
  | [] => ([], [])
  | rule :: rest =>
    let outcome := runner.runRule context shared rule
    let (groups, log) := runRules runner context outcome.shared rest
    ((rule.name, outcome.diagnostics) :: groups, outcome.log ++ log)

/-! ## Files -/

/-- What is found in a file, with remarks. -/
structure FileReport where
  results : Results
  log : List LogEntry

/-- The report on a text that is not a program. -/
def parseFailure (runner : Runner) (file : String) (text : List Char) (error : SyntaxError) :
    FileReport :=
  let region := syntaxErrorRegion file text error
  let diagnostic : Diagnostic :=
    { errorId := parseErrorId, message := error.message, severity := .error
      location := ⟨file, region.line, region.column⟩, rule := "", nodeType := "" }
  ⟨{ Results.empty with
      diagnostics := runner.suppressions.filter [diagnostic], files := [file] },
    [⟨.info, file ++ ": " ++ located (some region) error.message⟩]⟩

def fileResults (file : String) (groups : List (String × List Diagnostic)) : Results :=
  { diagnostics := Diagnostic.sort (groups.flatMap Prod.snd)
    byRule := Entries.layer [] groups
    times := Entries.layer [(Results.timeName "parse", 0)]
      (groups.map fun (name, _) => (Results.timeName name, 0))
    ruleNames := groups.map Prod.fst
    files := [file] }

/-- The report on a text, given the known globals. -/
def checkText (runner : Runner) (names : List String) (file : String) (text : List Char) :
    FileReport :=
  match Grammar.parse (String.ofList text) with
  | .error error => runner.parseFailure file text error
  | .ok root =>
    let context : Context :=
      { file, text, index := .ofText text, tree := root.tree, analysis := analyze root names
        registry := runner.registry }
    let (groups, log) := runner.runRules context .empty runner.enabledRules
    ⟨fileResults file groups, log⟩

/-- Checks a file; the runner that comes back knows its suppressions. -/
def check (runner : Runner) (file : String) (text : List Char) : FileReport × Runner :=
  let directives := readDirectives text
  let next := runner.withDirectives file directives
  let report := next.checkText (runner.knownNames directives) file text
  (⟨report.results,
    runner.idRemarks file directives ++ environmentRemarks file directives ++ report.log⟩, next)

/-- Checks files in turn with the same runner. -/
def checkAll (runner : Runner) (results : Results) : List (String × List Char) → FileReport
  | [] => ⟨results, []⟩
  | (file, text) :: rest =>
    let (report, next) := runner.check file text
    let after := checkAll next (results.extend report.results) rest
    ⟨after.results, report.log ++ after.log⟩

end Runner

/-- Checks one text with the standard rules. -/
def lint (config : Config) (file : String) (text : List Char) :
    Except ConfigError Runner.FileReport := do
  let runner ← Runner.ofConfig Rule.standard config []
  return (runner.check file text).1

end TemplateLint
