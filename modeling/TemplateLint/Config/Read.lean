import TemplateLint.Config.Basic
import TemplateLint.Files.Disk
import TemplateLint.Json.Read

/-!
# Reading configurations

A configuration is a JSON object. `Config.ofJson` reads one, and `ConfigError` has every
way in which one can be wrong. `Config.load` reads one from a file, and `Config.discover?`
finds the file next to what is checked.
-/

namespace TemplateLint

open TemplateLint.Decorator TemplateLint.Diagnostic TemplateLint.Files TemplateLint.Text

inductive SettingError where
  | empty
  | tooLong
  | severity (error : SeverityError)
  | optionsNotAnObject

namespace SettingError

def message : SettingError → String
  | .empty => "empty setting"
  | .tooLong => "expected [severity, options]"
  | .severity error => error.message
  | .optionsNotAnObject => "options must be an object"

end SettingError

/-- Why a configuration is rejected. The source, if there is one, is the file it comes
from. -/
inductive ConfigError where
  | notAnObject (source? : Option String)
  | unknownKeys (source? : Option String) (keys : List String)
  | cannotExtend (source? : Option String) (value : Json)
  | sectionNotAnObject (source? : Option String) (key : String)
  | environmentsNotAList (source? : Option String)
  | standardNotAFlag (source? : Option String)
  | patternsNotAList (source? : Option String) (id : String)
  | setting (rule : String) (error : SettingError)
  | environment (error : EnvironmentError)
  | unknownRule (name : String)
  | unknownOption (rule option : String)
  | optionNotAFlag (rule option : String)
  | table (error : TableError)
  | unreadable (path : String) (fault : FileFault)
  | notJson (path : String)
  | tableUnreadable (path : String) (fault : FileFault)
  | tableNotJson (path : String)

namespace ConfigError

def inSource : Option String → String
  | none => ""
  | some source => " in " ++ source

def message : ConfigError → String
  | .notAnObject source => "configuration" ++ inSource source ++ " must be a JSON object"
  | .unknownKeys source keys =>
    "unknown configuration keys" ++ inSource source ++ ": " ++ ", ".intercalate keys
  | .cannotExtend source value =>
    "cannot extend " ++ value.inspect ++ inSource source ++ "; only 'recommended' is built in"
  | .sectionNotAnObject source key =>
    quote key ++ inSource source ++ " must be an object"
  | .environmentsNotAList source => "'env'" ++ inSource source ++ " must be a list or an object"
  | .standardNotAFlag source => "'defaultDecorators'" ++ inSource source ++ " must be true or false"
  | .patternsNotAList source id =>
    "suppression " ++ quote id ++ inSource source ++ ": expected a list of file patterns"
  | .setting rule error => "rule " ++ quote rule ++ ": " ++ error.message
  | .environment error => error.message
  | .unknownRule name => "unknown rule " ++ quote name
  | .unknownOption rule option => "rule " ++ quote rule ++ " has no option " ++ quote option
  | .optionNotAFlag rule option =>
    "rule " ++ quote rule ++ ": option " ++ quote option ++ " must be bool"
  | .table error => error.message
  | .unreadable path fault => "cannot read configuration " ++ path ++ ": " ++ fault.message path
  | .notJson path => "configuration " ++ path ++ " is not valid JSON"
  | .tableUnreadable path fault =>
    "cannot read decorator table " ++ path ++ ": " ++ fault.message path
  | .tableNotJson path => "decorator table " ++ path ++ " is not valid JSON"

end ConfigError

/-! ## Parts of a configuration -/

def readSettingParts (severity options : Json) : Except SettingError RuleSetting := do
  let severity? ← (Severity.ofJson severity).mapError .severity
  match options with
  | .object members => return ⟨severity?, members⟩
  | _ => throw .optionsNotAnObject

/-- A severity, alone or in a list before options. -/
def readSetting : Json → Except SettingError RuleSetting
  | .list [] => .error .empty
  | .list [severity] => readSettingParts severity (.object [])
  | .list [severity, options] => readSettingParts severity options
  | .list _ => .error .tooLong
  | severity => readSettingParts severity (.object [])

def readSettings : Entries Json → Except ConfigError (Entries RuleSetting)
  | [] => .ok []
  | (name, value) :: rest => do
    let setting ← (readSetting value).mapError (.setting name)
    let settings ← readSettings rest
    return (name, setting) :: settings

def isWritable : Json → Bool
  | .bool value => value
  | .int value => value == 1
  | .float value => value == 1.0
  | .text value => ["writable", "writeable", "true"].contains value
  | _ => false

/-- A list of file patterns; one pattern may stand alone. -/
def readPatterns? : Json → Option (List String)
  | .text pattern => some [pattern]
  | .list items => items.mapM fun item =>
    match item with
    | .text pattern => some pattern
    | _ => none
  | _ => none

def readSuppressions (source? : Option String) :
    Entries Json → Except ConfigError (Entries (List String))
  | [] => .ok []
  | (id, value) :: rest => do
    match readPatterns? value with
    | none => throw (.patternsNotAList source? id)
    | some patterns =>
      let suppressions ← readSuppressions source? rest
      return (id, patterns) :: suppressions

/-- An object of the configuration, empty if left out. -/
def readSection (source? : Option String) (data : Entries Json) (key : String) :
    Except ConfigError (Entries Json) :=
  match data.find? key with
  | none => .ok []
  | some (.object members) => .ok members
  | some _ => .error (.sectionNotAnObject source? key)

/-- A list of names, or an object of flags. -/
def readEnvironments (source? : Option String) (data : Entries Json) :
    Except ConfigError (List Json) :=
  match data.find? "env" with
  | none => .ok []
  | some (.list items) => .ok items
  | some (.object members) =>
    .ok (members.filterMap fun (name, value) => if value.isTruthy then some (.text name) else none)
  | some _ => .error (.environmentsNotAList source?)

/-- The configuration that is extended. -/
def readBase (source? : Option String) (data : Entries Json) : Except ConfigError Config :=
  match data.find? "extends" with
  | none | some .null => .ok .empty
  | some (.text "recommended") => .ok .recommended
  | some value => .error (.cannotExtend source? value)

def readStandard (source? : Option String) (data : Entries Json) : Except ConfigError Bool :=
  match data.find? "defaultDecorators" with
  | none => .ok true
  | some (.bool value) => .ok value
  | some _ => .error (.standardNotAFlag source?)

def readEnvironmentName (value : Json) : Except ConfigError String :=
  match Environment.ofJson value, value with
  | .error error, _ => .error (.environment error)
  | .ok _, .text name => .ok name
  | .ok _, _ => .error (.environment .notAName)

/-! ## Whole configurations -/

namespace Config

def keys : List String :=
  ["extends", "rules", "globals", "env", "decorators", "defaultDecorators", "suppressions"]

/-- A configuration from JSON; the first fault decides. -/
def ofJson (source? : Option String) : Json → Except ConfigError Config
  | .object data => do
    let unknown := (Entries.names data).filter fun key => !keys.contains key
    if !unknown.isEmpty then throw (.unknownKeys source? (sortNames unknown))
    let base ← readBase source? data
    let rules ← readSettings (← readSection source? data "rules")
    let globals ← readSection source? data "globals"
    let environments ← readEnvironments source? data
    let decorators ← readSection source? data "decorators"
    let standardDecorators ← readStandard source? data
    let suppressions ← readSuppressions source? (← readSection source? data "suppressions")
    let environments ← environments.mapM readEnvironmentName
    return {
      rules := base.rules.layer rules
      globals := globals.map fun (name, value) => (name, isWritable value)
      environments, decorators, standardDecorators, suppressions, source? }
  | _ => .error (.notAnObject source?)

def knownEnvironments (config : Config) : Except ConfigError (List Environment) :=
  config.environments.mapM fun name => (Environment.ofName name).mapError .environment

/-- Checks the environments, and then the rules. -/
def validate (config : Config) (knownRules? : Option (List String)) :
    Except ConfigError (List Environment) := do
  let environments ← config.knownEnvironments
  if let some known := knownRules? then
    if let some name := config.rules.names.find? fun name => !known.contains name then
      throw (.unknownRule name)
  return environments

/-! ## Files -/

def fileNames : List String := [".twistrc", ".twistrc.json"]

end Config

inductive LoadError where
  | config (error : ConfigError)
  | encoding (fault : Utf8Fault)

namespace LoadError

def message : LoadError → String
  | .config error => error.message
  | .encoding fault => fault.message

end LoadError

namespace Config

variable {m : Type → Type} [Monad m]

/-- Reads a configuration file. -/
def load (disk : Disk m) (path : String) : m (Except LoadError Config) := do
  match ← disk.readText path with
  | .error (.file path fault) => return .error (.config (.unreadable path fault))
  | .error (.encoding fault) => return .error (.encoding fault)
  | .ok text =>
    match Json.parse? (String.ofList text) with
    | none => return .error (.config (.notJson path))
    | some value => return (ofJson (some path) value).mapError .config

def firstFile? (disk : Disk m) : List String → m (Option String)
  | [] => return none
  | path :: rest => do
    if ← disk.isFile path then return some path else firstFile? disk rest

/-- The configuration file nearest to a path: in its directory, or else above it. -/
def discover? (disk : Disk m) (start : String) : m (Option String) := do
  let full := PathName.ofText (← disk.resolve start)
  let directories := if ← disk.isDirectory full.text then full :: full.parents else full.parents
  firstFile? disk (directories.flatMap fun directory =>
    fileNames.map fun name => (directory.below [name]).text)

end Config

def Decorator.Registry.load {m : Type → Type} [Monad m] (disk : Disk m) (path : String) :
    m (Except LoadError Registry) := do
  match ← disk.readText path with
  | .error (.file path fault) => return .error (.config (.tableUnreadable path fault))
  | .error (.encoding fault) => return .error (.encoding fault)
  | .ok text =>
    match Json.parse? (String.ofList text) with
    | none => return .error (.config (.tableNotJson path))
    | some value => return (Registry.ofTable value).mapError fun error => .config (.table error)

end TemplateLint
