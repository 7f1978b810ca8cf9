import TemplateLint.Decorator.Standard
import TemplateLint.Diagnostic.Severity
import TemplateLint.Environment

/-!
# Configurations

Which rules run and how serious their problems are, which names and environments are
known, which decorators there are, and what is not to be reported. One configuration can
be laid over another (`Config.layer`).
-/

namespace TemplateLint

open TemplateLint.Decorator TemplateLint.Diagnostic

/-- How a rule is set; without a severity it is off. -/
structure RuleSetting where
  severity? : Option Severity
  options : Entries Json

namespace RuleSetting

def off : RuleSetting := ⟨none, []⟩

def plain (severity : Severity) : RuleSetting := ⟨some severity, []⟩

def isEnabled (setting : RuleSetting) : Bool := setting.severity?.isSome

end RuleSetting

/-- A configuration. -/
structure Config where
  rules : Entries RuleSetting
  /-- Names that are known, with whether they may be assigned. -/
  globals : Entries Bool
  environments : List String
  /-- A decorator table, not yet read. -/
  decorators : Entries Json
  standardDecorators : Bool
  /-- File patterns by the id that is not reported there. -/
  suppressions : Entries (List String)
  source? : Option String

namespace Config

def empty : Config := ⟨[], [], [], [], true, [], none⟩

/-- The built-in configuration. -/
def recommended : Config :=
  { empty with
    rules := [("jsx-member-vars", .plain .warning), ("no-undef", .plain .error),
      ("constructor-super", .plain .error), ("no-unused-vars", .plain .warning)] }

def rule (config : Config) (name : String) : RuleSetting :=
  (config.rules.find? name).getD .off

def enabledRules (config : Config) : List String :=
  config.rules.filterMap fun (name, setting) => if setting.isEnabled then some name else none

/-! ## Layers -/

def addNew (items : List String) (item : String) : List String :=
  if items.contains item then items else items ++ [item]

/-- Adds the new patterns to those of an id. -/
def layerPatterns (base : Entries (List String)) (id : String) (patterns : List String) :
    Entries (List String) :=
  base.set id (patterns.foldl addNew ((base.find? id).getD []))

/-- A configuration with another one laid over it: settings by name are replaced, lists
are extended by what is new, and the standard decorators remain only if both keep them. -/
def layer (base added : Config) : Config :=
  { rules := base.rules.layer added.rules
    globals := base.globals.layer added.globals
    environments :=
      base.environments ++ added.environments.filter fun name => !base.environments.contains name
    decorators := base.decorators.layer added.decorators
    standardDecorators := base.standardDecorators && added.standardDecorators
    suppressions := added.suppressions.foldl
      (fun merged (id, patterns) => layerPatterns merged id patterns) base.suppressions
    source? := base.source? }

/-- The decorators, with the standard ones if kept. -/
def registry (config : Config) : Except TableError Registry := do
  let configured ← Registry.ofTable (.object config.decorators)
  return if config.standardDecorators then Registry.standard.layer configured else configured

end Config

end TemplateLint
