/-!
# Lines and columns

A line index holds the offsets at which the lines of a text start. Offsets count
characters, only a line feed ends a line, and lines and columns are counted from
one (`LineIndex.position`).
-/

namespace TemplateLint.Text

structure Position where
  line : Nat
  column : Nat
  deriving DecidableEq, Repr

/-- The offsets at which the lines of a text start, in increasing order. -/
structure LineIndex where
  starts : List Nat
  deriving DecidableEq, Repr

namespace LineIndex

def startsFrom (offset : Nat) : List Char → List Nat
  | [] => []
  | c :: rest =>
    if c = '\n' then (offset + 1) :: startsFrom (offset + 1) rest
    else startsFrom (offset + 1) rest

def ofText (text : List Char) : LineIndex := ⟨0 :: startsFrom 0 text⟩

/-- The line and column of an offset: the line is the number of line starts at or
below the offset, the column counts from the last of them. -/
def position (index : LineIndex) (offset : Nat) : Position :=
  let before := index.starts.takeWhile (· ≤ offset)
  ⟨before.length, offset - before.getLastD 0 + 1⟩

end LineIndex

end TemplateLint.Text
