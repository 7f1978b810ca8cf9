import TemplateLint.Directive.Comment
import TemplateLint.Entries
import TemplateLint.Text.Blank

/-!
# Directives

Comments that configure the checks of their own file:

    /* global a, b:false, c:writable */     names that are known (also `globals`)
    /* eslint-env browser, node */          environments
    // twistlint-disable-line [ids...]      nothing is reported on this line
    // twistlint-disable-next-line [ids...] nothing is reported on the next line
    /* twistlint-disable [ids...] */        nothing is reported in this file

The ids are those of rules or of problems; without any, all are meant.
-/

namespace TemplateLint.Directive

open TemplateLint.Text

def wildcard : String := "*"

/-- What one comment asks for. -/
inductive Instruction where
  | globals (entries : Entries Bool)
  | environments (names : List String)
  | disableLine (line : Nat) (ids : List String)
  | disableFile (ids : List String)
  deriving DecidableEq, Repr

/-- What the comments of a file ask for. -/
structure Directives where
  globals : Entries Bool
  environments : List String
  lines : List (Nat × List String)
  file : List String
  deriving DecidableEq, Repr

/-! ## Words -/

/-- The text behind a word it starts with. -/
def afterWord? (word : String) (text : List Char) : Option (List Char) :=
  if word.toList.isPrefixOf text then some (text.drop word.length) else none

def piecesFrom (piece : List Char) : List Char → List (List Char)
  | [] => [piece]
  | c :: rest =>
    if isBlank c || c == ',' then piece :: piecesFrom [] rest else piecesFrom (piece ++ [c]) rest

/-- The names between blanks and commas. -/
def splitNames (text : List Char) : List String :=
  ((piecesFrom [] text).filter fun piece => !piece.isEmpty).map String.ofList

/-- The text without the blanks around its colons, given the blanks just read and whether
a colon stands before them. -/
def joinColonsFrom (blanks : List Char) (afterColon : Bool) : List Char → List Char
  | [] => if afterColon then [] else blanks
  | c :: rest =>
    if c == ':' then ':' :: joinColonsFrom [] true rest
    else if isBlank c then joinColonsFrom (blanks ++ [c]) afterColon rest
    else (if afterColon then [] else blanks) ++ c :: joinColonsFrom [] false rest

def joinColons (text : List Char) : List Char := joinColonsFrom [] false text

def isWritableFlag (flag : String) : Bool :=
  ["true", "writable", "writeable"].contains (lowerAscii (strip flag))

/-- The parts of a text before and after the first character of a kind. -/
def partition (mark : Char) (text : List Char) : List Char × List Char :=
  (text.takeWhile (· != mark), (text.dropWhile (· != mark)).drop 1)

/-- A name and whether it may be written. -/
def readGlobal (item : String) : String × Bool :=
  let (name, flag) := partition ':' item.toList
  (strip (String.ofList name), isWritableFlag (String.ofList flag))

/-! ## One comment -/

/-- The text behind a word and a blank. -/
def argument? (word : String) (text : List Char) : Option (List Char) :=
  match afterWord? word (text.dropWhile isBlank) with
  | some (c :: rest) => if isBlank c then some (rest.dropWhile isBlank) else none
  | _ => none

def readGlobals? (value : List Char) : Option Instruction :=
  (argument? "globals" value <|> argument? "global" value).map fun text =>
    .globals (((splitNames (joinColons text)).map readGlobal).filter fun entry => entry.1 != "")

def readEnvironments? (value : List Char) : Option Instruction :=
  (argument? "eslint-env" value).map fun text => .environments (splitNames text)

/-- The ids at the end of a comment: none at all stands for all of them. -/
def readIds? : List Char → Option (List String)
  | [] => some [wildcard]
  | c :: rest =>
    if isBlank c then
      let ids := splitNames rest
      some (if ids.isEmpty then [wildcard] else ids)
    else none

/-- What a comment turns off. Only a block comment can turn something off in its whole
file. -/
def readDisable? (comment : Comment) : Option Instruction :=
  (afterWord? "twistlint-disable" (comment.value.dropWhile isBlank)).bind fun rest =>
    match afterWord? "-line" rest, afterWord? "-next-line" rest with
    | some ids, _ => (readIds? ids).map (.disableLine comment.line)
    | _, some ids => (readIds? ids).map (.disableLine (comment.endLine + 1))
    | none, none => if comment.kind = .block then (readIds? rest).map .disableFile else none

def readComment? (comment : Comment) : Option Instruction :=
  match comment.kind with
  | .line => readDisable? comment
  | .block =>
    readGlobals? comment.value <|> readEnvironments? comment.value <|> readDisable? comment

/-! ## A whole file -/

namespace Directives

def empty : Directives := ⟨[], [], [], []⟩

def add (directives : Directives) : Instruction → Directives
  | .globals entries => { directives with globals := directives.globals.layer entries }
  | .environments names => { directives with environments := directives.environments ++ names }
  | .disableLine line ids => { directives with lines := directives.lines ++ [(line, ids)] }
  | .disableFile ids => { directives with file := directives.file ++ ids }

/-- All ids that comments turn off. -/
def mentioned (directives : Directives) : List String :=
  directives.file ++ directives.lines.flatMap Prod.snd

/-- The ids turned off on a line. -/
def idsOn (directives : Directives) (line : Nat) : List String :=
  directives.lines.flatMap fun (place, ids) => if place = line then ids else []

end Directives

/-- The directives of a text. -/
def readDirectives (text : List Char) : Directives :=
  ((comments text).filterMap readComment?).foldl Directives.add .empty

end TemplateLint.Directive
