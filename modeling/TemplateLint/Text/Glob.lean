/-!
# File patterns

A pattern with `*` for any characters, `?` for one, and `[...]` for one of a set, in which `a-z`
is a range and a `!` in front takes the other characters. A `[` that is never closed stands for
itself. A range whose ends are the wrong way round is taken out of its set, with its ends.
-/

namespace TemplateLint.Text.Glob

/-- A part of a pattern. -/
inductive Item where
  | star
  | any
  | char (c : Char)
  /-- One of the characters of some ranges, or one of the others. -/
  | oneOf (negated : Bool) (ranges : List (Char × Char))
  deriving DecidableEq, Repr

/-! ## Sets of characters -/

/-- What is inside the brackets, given what follows the opening one: a closing bracket
does not close the set as its first character. -/
def setBody? (text : List Char) : Option (List Char) :=
  let head := match text with
    | '!' :: ']' :: _ => 2
    | '!' :: _ => 1
    | ']' :: _ => 1
    | _ => 0
  let rest := text.drop head
  if rest.contains ']' then some (text.take head ++ rest.takeWhile (· != ']')) else none

/-- The pieces of a set between the hyphens of its ranges, given the piece begun so far and
the number of characters before the next hyphen can make a range. -/
def pieces (piece : List Char) (wait : Nat) : List Char → List (List Char)
  | [] => [piece]
  | c :: rest =>
    if c == '-' && wait == 0 then piece :: pieces [] 2 rest
    else pieces (piece ++ [c]) (wait - 1) rest

/-- The pieces with a hyphen at the very end put back to the last piece. -/
def closeLast : List (List Char) → List (List Char)
  | [piece, []] => [piece ++ ['-']]
  | piece :: rest => piece :: closeLast rest
  | [] => []

/-- The pieces without the ranges whose ends are the wrong way round. -/
def dropReversed : List (List Char) → List (List Char)
  | [] => []
  | piece :: rest =>
    match dropReversed rest with
    | [] => [piece]
    | next :: more =>
      match piece.getLast?, next.head? with
      | some low, some high =>
        if high < low then (piece.dropLast ++ next.drop 1) :: more else piece :: next :: more
      | _, _ => piece :: next :: more

/-- The characters of the pieces, and the ranges from one to the next. A hyphen after
nothing stands for itself. -/
def rangesOf : List (List Char) → List (Char × Char)
  | [] => []
  | [piece] => piece.map fun c => (c, c)
  | piece :: next :: rest =>
    piece.map (fun c => (c, c))
      ++ (match piece.getLast?, next.head? with
        | some low, some high => [(low, high)]
        | _, _ => [('-', '-')])
      ++ rangesOf (next :: rest)

def readSet (body : List Char) : Item :=
  let wait := if body.head? == some '!' then 2 else 1
  match dropReversed (closeLast (pieces [] wait body)) with
  | ('!' :: piece) :: rest => .oneOf true (rangesOf (piece :: rest))
  | other => .oneOf false (rangesOf other)

/-! ## Patterns -/

/-- The items of the rest of a pattern of which the first characters belong to a set
already read. -/
def itemsFrom (inside : Nat) : List Char → List Item
  | [] => []
  | c :: rest =>
    match inside with
    | inside + 1 => itemsFrom inside rest
    | 0 =>
      match c with
      | '*' => .star :: itemsFrom 0 rest
      | '?' => .any :: itemsFrom 0 rest
      | '[' =>
        match setBody? rest with
        | none => .char '[' :: itemsFrom 0 rest
        | some body => readSet body :: itemsFrom (body.length + 1) rest
      | c => .char c :: itemsFrom 0 rest

def items (pattern : String) : List Item := itemsFrom 0 pattern.toList

namespace Item

def accepts (item : Item) (c : Char) : Bool :=
  match item with
  | .star | .any => true
  | .char expected => c == expected
  | .oneOf negated ranges => ranges.any (fun (low, high) => low ≤ c && c ≤ high) != negated

end Item

def rests : List Char → List (List Char)
  | [] => [[]]
  | c :: rest => (c :: rest) :: rests rest

def leaves? (item : Item) : List Char → Option (List Char)
  | [] => none
  | c :: rest => if item.accepts c then some rest else none

/-- What may be left after one more item, given what may be left before it, the longest
first. -/
def step (left : List (List Char)) (item : Item) : List (List Char) :=
  match item with
  | .star =>
    match left with
    | [] => []
    | longest :: _ => rests longest
  | item => left.filterMap (leaves? item)

def fits (pattern text : String) : Bool :=
  ((items pattern).foldl step [text.toList]).any List.isEmpty

end TemplateLint.Text.Glob
