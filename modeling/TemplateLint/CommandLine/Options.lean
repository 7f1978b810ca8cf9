import TemplateLint.Entries
import TemplateLint.Text.Digit
import TemplateLint.Text.Quoted

/-!
# Options

The arguments are first taken as words, one by one (`Word`): options, known by their full name or
by any beginning of it that no other name shares, and everything else. Then the words are taken
in order (`takeWords`). The paths are one run of words; further words outside it are not
understood. Taking a word may end the program at once, so a wrong argument is only found if
nothing before it has done so.
-/

namespace TemplateLint.CommandLine

open TemplateLint.Text

inductive OptionKey where
  | help | version | verbose | config | noConfig | rule | global | environment | suppress
  | format | quiet | listRules
  deriving DecidableEq, Repr

namespace OptionKey

def takesValue : OptionKey → Bool
  | .config | .rule | .global | .environment | .suppress | .format => true
  | _ => false

def names : Entries OptionKey :=
  [("-h", .help), ("--help", .help), ("--version", .version), ("-v", .verbose),
    ("--verbose", .verbose), ("--config", .config), ("--no-config", .noConfig), ("--rule", .rule),
    ("--global", .global), ("--env", .environment), ("--suppress", .suppress),
    ("--format", .format), ("--quiet", .quiet), ("--list-rules", .listRules)]

def text (key : OptionKey) : String :=
  "/".intercalate (names.filterMap fun (name, other) => if other = key then some name else none)

end OptionKey

inductive OutputFormat where
  | lines | json | summary
  deriving DecidableEq, Repr

namespace OutputFormat

def byName : Entries OutputFormat := [("gcc", .lines), ("json", .json), ("summary", .summary)]

end OutputFormat

/-- What the command line asks for. The options that may be repeated keep a place for
each time, also where the value was taken away. -/
structure Options where
  paths : List String
  verbosity : Nat
  /-- The file of the configuration; an empty name stands for none. -/
  config? : Option String
  noConfig : Bool
  rules : List (Option String)
  globals : List (Option String)
  environments : List (Option String)
  suppressions : List (Option String)
  format : OutputFormat
  quiet : Bool
  listRules : Bool
  deriving DecidableEq, Repr

namespace Options

def default : Options := ⟨[], 0, none, false, [], [], [], [], .lines, false, false⟩

end Options

inductive UsageError where
  | ambiguous (text : String) (names : List String)
  | valueExpected (key : OptionKey)
  | valueIgnored (key : OptionKey) (value : String)
  | unknownFormat (value : String)
  | conflict (key other : OptionKey)
  | unrecognized (texts : List String)
  deriving DecidableEq, Repr

namespace UsageError

def message : UsageError → String
  | .ambiguous text names =>
    "ambiguous option: " ++ text ++ " could match " ++ ", ".intercalate names
  | .valueExpected key => "argument " ++ key.text ++ ": expected one argument"
  | .valueIgnored key value =>
    "argument " ++ key.text ++ ": ignored explicit argument " ++ quote value
  | .unknownFormat value =>
    "argument " ++ OptionKey.format.text ++ ": invalid choice: " ++ quote value
      ++ " (choose from " ++ ", ".intercalate (OutputFormat.byName.names.map quote) ++ ")"
  | .conflict key other => "argument " ++ key.text ++ ": not allowed with argument " ++ other.text
  | .unrecognized texts => "unrecognized arguments: " ++ " ".intercalate texts

end UsageError

inductive Stop where
  | help
  | version
  | usage (error : UsageError)
  deriving DecidableEq, Repr

/-! ## Words -/

/-- What is attached to an option, after a mark of equality or directly. After an
option of one letter it may be further such options. -/
structure Attached where
  value : List Char
  afterLetter : Bool
  deriving DecidableEq, Repr

inductive Word where
  | argument (text : String)
  | separator
  | option (key : OptionKey) (attached? : Option Attached)
  | unknown (text : String)
  deriving DecidableEq, Repr

def looksNegative (text : List Char) : Bool :=
  let body := if text.getLast? == some '\n' then text.dropLast else text
  match body with
  | '-' :: digits =>
    match digits.dropWhile isDigit with
    | [] => !digits.isEmpty
    | '.' :: places => !places.isEmpty && places.all isDigit
    | _ => false
  | _ => false

def isLong : List Char → Bool
  | '-' :: '-' :: _ => true
  | _ => false

def splitAttached (text : List Char) : String × Option Attached :=
  let name := String.ofList (text.takeWhile (· != '='))
  match text.dropWhile (· != '=') with
  | [] => (name, none)
  | _ :: value => (name, some ⟨value, !isLong text⟩)

/-- The word of a text that starts like an option and is not the full name of one. -/
def abbreviated (text : String) : Except UsageError Word :=
  let fallback : Word :=
    if looksNegative text.toList || text.toList.contains ' ' then .argument text else .unknown text
  match text.toList with
  | '-' :: '-' :: _ =>
    let (name, attached?) := splitAttached text.toList
    match OptionKey.names.filter fun entry => name.toList.isPrefixOf entry.1.toList with
    | [] => .ok fallback
    | [(_, key)] => .ok (.option key attached?)
    | several => .error (.ambiguous text (several.map Prod.fst))
  | '-' :: c :: rest =>
    match OptionKey.names.find? (String.ofList ['-', c]) with
    | some key => .ok (.option key (some ⟨rest, true⟩))
    | none => .ok fallback
  | _ => .ok fallback

def readWord (text : String) : Except UsageError Word :=
  if !(text.toList.head? == some '-') then .ok (.argument text)
  else
    match OptionKey.names.find? text with
    | some key => .ok (.option key none)
    | none =>
      if text == "-" then .ok (.argument text)
      else
        match splitAttached text.toList with
        | (name, some attached) =>
          match OptionKey.names.find? name with
          | some key => .ok (.option key (some attached))
          | none => abbreviated text
        | (_, none) => abbreviated text

/-- Tells options from paths. -/
def readWords : List String → Except UsageError (List Word)
  | [] => .ok []
  | text :: rest =>
    if text == "--" then .ok (.separator :: rest.map .argument)
    else do
      let word ← readWord text
      let words ← readWords rest
      return word :: words

/-! ## Taking words -/

inductive PathRun where
  | before | inside | after
  deriving DecidableEq, Repr

/-- The options so far, the run of paths, and what was not understood. -/
structure Taken where
  options : Options
  run : PathRun
  unrecognized : List String
  deriving DecidableEq, Repr

namespace Taken

def start : Taken := ⟨.default, .before, []⟩

def endRun (taken : Taken) : Taken :=
  { taken with run := if taken.run = .before then .before else .after }

def argument (taken : Taken) (text : String) : Taken :=
  match taken.run with
  | .after => { taken with unrecognized := taken.unrecognized ++ [text] }
  | _ =>
    { taken with
      options := { taken.options with paths := taken.options.paths ++ [text] }, run := .inside }

/-- Take the separator: it belongs to the run of paths, and is not one of them. -/
def separator (taken : Taken) : Taken :=
  match taken.run with
  | .after => { taken with unrecognized := taken.unrecognized ++ ["--"] }
  | _ => { taken with run := .inside }

def flag (taken : Taken) (key : OptionKey) : Except Stop Taken :=
  let options := taken.options
  let become := fun (options : Options) => Except.ok { taken.endRun with options }
  match key with
  | .help => .error .help
  | .version => .error .version
  | .verbose => become { options with verbosity := options.verbosity + 1 }
  | .noConfig =>
    if options.config?.isSome then .error (.usage (.conflict .noConfig .config))
    else become { options with noConfig := true }
  | .quiet => become { options with quiet := true }
  | .listRules => become { options with listRules := true }
  | _ => .error (.usage (.valueExpected key))

/-- The value of an option. The separator is taken away also where it is the value,
which leaves none. -/
def kept? (text : String) : Option String := if text == "--" then none else some text

/-- Take an option with its value. Without one, the format is that of lines. -/
def value (taken : Taken) (key : OptionKey) (text : String) : Except Stop Taken :=
  let options := taken.options
  let become := fun (options : Options) => Except.ok { taken.endRun with options }
  let value? := kept? text
  match key with
  | .config =>
    if options.noConfig then .error (.usage (.conflict .config .noConfig))
    else become { options with config? := some (value?.getD "") }
  | .rule => become { options with rules := options.rules ++ [value?] }
  | .global => become { options with globals := options.globals ++ [value?] }
  | .environment => become { options with environments := options.environments ++ [value?] }
  | .suppress => become { options with suppressions := options.suppressions ++ [value?] }
  | .format =>
    match value? with
    | none => become { options with format := .lines }
    | some name =>
      match OutputFormat.byName.find? name with
      | some format => become { options with format }
      | none => .error (.usage (.unknownFormat name))
  | _ => .error (.usage (.valueIgnored key text))

end Taken

/-- The one-letter options written together after another one. A letter that is no
option makes the rest a value, which the option before it does not take. -/
def readCluster (key : OptionKey) : List Char → Except UsageError (List OptionKey)
  | [] => .ok []
  | c :: rest =>
    match OptionKey.names.find? (String.ofList ['-', c]) with
    | none => .error (.valueIgnored key (String.ofList (c :: rest)))
    | some next => do return next :: (← readCluster next rest)

def takeFlags (taken : Taken) : List OptionKey → Except Stop Taken
  | [] => .ok taken
  | key :: rest => do takeFlags (← taken.flag key) rest

def takeAttached (taken : Taken) (key : OptionKey) (attached : Attached) : Except Stop Taken := do
  if key.takesValue then taken.value key (String.ofList attached.value)
  else if attached.value.isEmpty || !attached.afterLetter then
    throw (.usage (.valueIgnored key (String.ofList attached.value)))
  else
    let keys ← (readCluster key attached.value).mapError .usage
    takeFlags taken (key :: keys)

def takeWords (taken : Taken) : List Word → Except Stop Taken
  | [] => .ok taken
  | .argument text :: rest => takeWords (taken.argument text) rest
  | .separator :: rest => takeWords taken.separator rest
  | .unknown text :: rest =>
    takeWords { taken.endRun with unrecognized := taken.unrecognized ++ [text] } rest
  | .option key (some attached) :: rest => do takeWords (← takeAttached taken key attached) rest
  | .option key none :: .argument text :: rest => do
    if key.takesValue then takeWords (← taken.value key text) rest
    else takeWords (← taken.flag key) (.argument text :: rest)
  | .option key none :: rest => do takeWords (← taken.flag key) rest

/-- The options of a command line. -/
def readOptions (arguments : List String) : Except Stop Options := do
  let words ← (readWords arguments).mapError .usage
  let taken ← takeWords .start words
  if taken.unrecognized.isEmpty then return taken.options
  else throw (.usage (.unrecognized taken.unrecognized))

end TemplateLint.CommandLine
