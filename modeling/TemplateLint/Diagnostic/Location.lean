import TemplateLint.Syntax.Error

/-!
# Locations

Points and regions of files, and how messages name them.
-/

namespace TemplateLint.Diagnostic

open TemplateLint.Syntax

/-- A point in a file. Line and column count from one; a column of zero means the whole
line. -/
structure Location where
  file : String
  line : Int
  column : Int
  deriving DecidableEq, Repr

namespace Location

def text (location : Location) : String :=
  let line := location.file ++ ":" ++ toString location.line
  if location.column = 0 then line else line ++ ":" ++ toString location.column

/-- The order of files by their characters, then of lines and columns. -/
def le (a b : Location) : Bool :=
  if a.file = b.file then
    if a.line = b.line then a.column ≤ b.column else a.line < b.line
  else a.file < b.file

end Location

structure Region where
  file : String
  line : Int
  column : Int
  endLine : Int
  endColumn : Int
  deriving DecidableEq, Repr

namespace Region

def ofStart (file : String) (line column : Int) (endLine? endColumn? : Option Int) : Region :=
  ⟨file, line, column, endLine?.getD line, endColumn?.getD column⟩

def text (region : Region) : String :=
  region.file ++ ":" ++ toString region.line ++ ":" ++ toString region.column

end Region

def located (region? : Option Region) (message : String) : String :=
  match region? with
  | some region => region.text ++ ": " ++ message
  | none => message

def syntaxErrorRegion (file : String) (source : List Char) (error : SyntaxError) : Region :=
  let position := error.position source
  .ofStart file position.line position.column none none

end TemplateLint.Diagnostic
