/-!
# Log entries

What is said about a run apart from its results.
-/

namespace TemplateLint

inductive LogLevel where
  | info | warning | error
  deriving DecidableEq, Repr

namespace LogLevel

def text : LogLevel → String
  | .info => "INFO"
  | .warning => "WARNING"
  | .error => "ERROR"

end LogLevel

structure LogEntry where
  level : LogLevel
  message : String
  deriving DecidableEq, Repr

end TemplateLint
