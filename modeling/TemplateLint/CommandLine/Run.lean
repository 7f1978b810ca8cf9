import TemplateLint.CommandLine.Options
import TemplateLint.Run.Runner

/-!
# The command

Checks the files and directories that the command line names, and gives what is to be
printed and the exit code: 0 if nothing serious was found, 1 if something was, and 2 if
the command could not be carried out.
-/

namespace TemplateLint.CommandLine

open TemplateLint.Diagnostic TemplateLint.Directive TemplateLint.Files TemplateLint.Text

inductive CommandError where
  | load (error : LoadError)
  | config (error : ConfigError)
  | valueMissing (key : OptionKey)
  | ruleOption (text : String)
  | ruleOptionJson (name : String)
  | missingPath (path : String)
  | unreadable (error : ReadError)

namespace CommandError

def message : CommandError → String
  | .load error => error.message
  | .config error => error.message
  | .valueMissing key => "argument " ++ key.text ++ ": no value"
  | .ruleOption text => "--rule expects NAME=SEVERITY, got " ++ quote text
  | .ruleOptionJson name => "--rule " ++ name ++ ": <json error>"
  | .missingPath path => "no such file or directory: " ++ path
  | .unreadable error => error.message

end CommandError

inductive Ending where
  | finished
  | stopped (stop : Stop)
  | failed (error : CommandError)

structure Outcome where
  exitCode : Nat
  output : String
  log : List LogEntry
  ending : Ending

/-! ## Texts -/

def versionText : String := "twistlint 0.1.0\n"

def usageText : String :=
  "usage: twistlint [-h] [--version] [-v] [--config FILE | --no-config]\n"
  ++ "                 [--rule NAME=SEVERITY] [--global NAME[:writable]]\n"
  ++ "                 [--env NAME] [--suppress ID[:PATTERN]]\n"
  ++ "                 [--format \x7bgcc,json,summary\x7d] [--quiet] [--list-rules]\n"
  ++ "                 [paths ...]\n"

def helpText : String :=
  usageText
  ++ "\n"
  ++ "Lint JavaScript and JSX written for the Twist framework.\n"
  ++ "\n"
  ++ "positional arguments:\n"
  ++ "  paths                 Files or directories to check (default: .).\n"
  ++ "\n"
  ++ "options:\n"
  ++ "  -h, --help            show this help message and exit\n"
  ++ "  --version             show program's version number and exit\n"
  ++ "  -v, --verbose         Increase verbosity (-v info, -vv debug).\n"
  ++ "\n"
  ++ "configuration:\n"
  ++ "  --config FILE         Read configuration from FILE.\n"
  ++ "  --no-config           Do not look for .twistrc; start from the recommended\n"
  ++ "                        rules.\n"
  ++ "  --rule NAME=SEVERITY  Set a rule's severity (off, warn, error) or [severity,\n"
  ++ "                        options] JSON.\n"
  ++ "  --global NAME[:writable]\n"
  ++ "                        Declare a global variable.\n"
  ++ "  --env NAME            Enable an environment's globals (browser, node, ...).\n"
  ++ "  --suppress ID[:PATTERN]\n"
  ++ "                        Suppress an error id or rule everywhere, or in files\n"
  ++ "                        matching PATTERN.\n"
  ++ "\n"
  ++ "output:\n"
  ++ "  --format \x7bgcc,json,summary\x7d\n"
  ++ "                        Diagnostic format (default: gcc).\n"
  ++ "  --quiet               Report errors only.\n"
  ++ "  --list-rules          List the rules and exit.\n"
  ++ "\n"
  ++ "examples:\n"
  ++ "  twistlint src/\n"
  ++ "  twistlint app.jsx --rule no-undef='[\"error\", \x7b\"typeof\": true\x7d]'\n"
  ++ "  twistlint src/ --format json --suppress unusedVariable\n"

def padRight (width : Nat) (text : String) : String :=
  text ++ String.ofList (List.replicate (width - text.length) ' ')

def ruleEntry (rule : Rule) : String :=
  let ids := if rule.errorIds.isEmpty then "-" else ", ".intercalate (sortNames rule.errorIds)
  padRight 20 rule.name ++ " " ++ padRight 8 rule.defaultSeverity.text ++ " " ++ rule.description
    ++ "\n" ++ padRight 20 "" ++ " ids: " ++ ids ++ "\n"

def ruleList (rules : List Rule) : String :=
  String.join ((rules.mergeSort fun a b => a.name ≤ b.name).map ruleEntry)

def printed (options : Options) (results : Results) : String :=
  let diagnostics := if options.quiet then results.ofSeverity .error else results.diagnostics
  let line := fun diagnostic =>
    (if options.format = .json then Diagnostic.jsonLine diagnostic else Diagnostic.text diagnostic)
      ++ "\n"
  String.join (diagnostics.map line)
    ++ if options.format = .summary then results.summary ++ "\n" else ""

/-! ## Options that change the configuration -/

/-- A setting given as `NAME=SEVERITY`, or with a list in place of the severity. -/
def readRuleOption (text : String) : Except CommandError (String × RuleSetting) := do
  let (name, value) := partition '=' text.toList
  if name.isEmpty || !text.toList.contains '=' then throw (.ruleOption text)
  let value := trim value
  let value ←
    if value.head? == some '[' then
      match Json.parse? (String.ofList value) with
      | some value => pure value
      | none => throw (.ruleOptionJson (String.ofList name))
    else pure (.text (String.ofList value))
  let name := strip (String.ofList name)
  let setting ← (readSetting value).mapError fun error => .config (.setting name error)
  return (name, setting)

def required (key : OptionKey) : Option String → Except CommandError String
  | some text => .ok text
  | none => .error (.valueMissing key)

def readRuleOptions (settings : Entries RuleSetting) :
    List (Option String) → Except CommandError (Entries RuleSetting)
  | [] => .ok settings
  | text? :: rest => do
    let (name, setting) ← readRuleOption (← required .rule text?)
    readRuleOptions (settings.set name setting) rest

def readEnvironmentOption (text? : Option String) : Except CommandError String := do
  let name ← required .environment text?
  let _ ← (Environment.ofName name).mapError fun error => .config (.environment error)
  return name

def readSuppression (text : String) : Suppression :=
  let (id, pattern) := partition ':' text.toList
  if pattern.isEmpty then .everywhere (String.ofList id)
  else .inFiles (String.ofList pattern) (String.ofList id)

def readAdditions (options : Options) : Except CommandError (Config × Suppressions) := do
  let rules ← readRuleOptions [] options.rules
  let globals ← options.globals.mapM (required .global)
  let suppressions ← options.suppressions.mapM (required .suppress)
  let environments ← options.environments.mapM readEnvironmentOption
  let config :=
    { Config.empty with rules, globals := Entries.layer [] (globals.map readGlobal), environments }
  return (config, suppressions.map readSuppression)

/-! ## Files -/

def sourceExtensions : List String := [".js", ".jsx"]

def skippedDirectories : List String := ["node_modules", ".git"]

/-- Whether a file in a directory is checked, by the parts of its name from there. -/
def isSource (parts : List String) : Bool :=
  (parts.getLast?.any fun name => sourceExtensions.contains (PathName.extension name))
    && !parts.any skippedDirectories.contains

section

variable {m : Type → Type} [Monad m]

/-- The course of a command: it makes remarks, and may fail. -/
abbrev Session (m : Type → Type) := ExceptT CommandError (StateT (List LogEntry) m)

def ask {α : Type} (question : m α) : Session m α := monadLift question

def remark (entries : List LogEntry) : Session m Unit := modify (· ++ entries)

/-- The files to check below a path. -/
def filesOf (disk : Disk m) (path : String) : Session m (List String) := do
  let name := PathName.ofText path
  if ← ask (disk.isDirectory name.text) then
    let found ← ask (disk.filesBelow name.text)
    return ((found.filter isSource).mergeSort partsLe).map fun parts => (name.below parts).text
  else if ← ask (disk.isFile name.text) then return [name.text]
  else throw (.missingPath path)

/-- The configuration given, found or recommended. -/
def chooseConfig (disk : Disk m) (options : Options) (paths : List String) : Session m Config := do
  let load := fun (path : String) => do
    match ← ask (Config.load disk path) with
    | .ok config => return config
    | .error error => throw (.load error)
  match options.config? with
  | some path =>
    if path != "" then return ← load (PathName.ofText path).text
  | none => pure ()
  if options.noConfig then return .recommended
  match ← ask (Config.discover? disk (paths.headD ".")) with
  | none => return .recommended
  | some path =>
    remark [⟨.info, "using configuration " ++ path⟩]
    load path

def checkFiles (disk : Disk m) (runner : Runner) (results : Results) :
    List String → Session m Results
  | [] => return results
  | path :: rest => do
    match ← ask (disk.readText path) with
    | .error error => throw (.unreadable error)
    | .ok text =>
      let (report, next) := runner.check path text
      remark report.log
      checkFiles disk next (results.extend report.results) rest

def checkPaths (disk : Disk m) (options : Options) : Session m Results := do
  let paths := if options.paths.isEmpty then ["."] else options.paths
  let base ← chooseConfig disk options paths
  let (added, suppressions) ← liftExcept (readAdditions options)
  let runner ← liftExcept
    ((Runner.ofConfig Rule.standard (base.layer added) suppressions).mapError .config)
  let files ← paths.mapM (filesOf disk)
  checkFiles disk runner .empty files.flatten
where
  liftExcept {α : Type} (result : Except CommandError α) : Session m α :=
    ExceptT.mk (pure result)

def isShown (options : Options) (entry : LogEntry) : Bool :=
  entry.level != .info || options.verbosity > 0

def runOptions (disk : Disk m) (options : Options) : m Outcome := do
  if options.listRules then return Outcome.mk 0 (ruleList Rule.standard) [] .finished
  let (result, log) ← (checkPaths disk options).run.run []
  match result with
  | .ok results =>
    return Outcome.mk (if results.errorCount > 0 then 1 else 0) (printed options results)
      (log.filter (isShown options)) .finished
  | .error error =>
    let failure : LogEntry := ⟨.error, error.message⟩
    return Outcome.mk 2 "" ((log ++ [failure]).filter (isShown options)) (.failed error)

/-- What the program does with its arguments. -/
def run (disk : Disk m) (arguments : List String) : m Outcome :=
  match readOptions arguments with
  | .error .help => return ⟨0, helpText, [], .stopped .help⟩
  | .error .version => return ⟨0, versionText, [], .stopped .version⟩
  | .error (.usage error) => return ⟨2, "", [], .stopped (.usage error)⟩
  | .ok options => runOptions disk options

end

end TemplateLint.CommandLine
