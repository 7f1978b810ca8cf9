/-!
# Character classes given by their runs

A class of characters is written as the lengths of the runs of code points that lie outside and
inside it in turn, beginning outside; what follows the last run is as the next run would be
(`CharClass.contains`).
-/

namespace TemplateLint.Text

structure CharClass where
  /-- How many code points are outside, then inside, then outside again, and so on. -/
  runs : List Nat

namespace CharClass

/-- Whether a code point is inside, counted from the start of the first of some runs. -/
def containsFrom (inside : Bool) (code : Nat) : List Nat → Bool
  | [] => inside
  | run :: rest => if code < run then inside else containsFrom (!inside) (code - run) rest

def contains (cls : CharClass) (c : Char) : Bool := containsFrom false c.toNat cls.runs

end CharClass

end TemplateLint.Text
