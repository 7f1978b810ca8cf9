import TemplateLint.Grammar.Terminal

/-!
# Grammar expressions and their evaluation

A grammar expression (`Peg`) describes how a value is read from the start of a text. A choice
takes its first alternative that matches and never returns to it; a repetition takes as many
copies as it can. A value may be refused (`check`) without making its match fail; of several
faults the leftmost innermost one is seen first, once a whole text has been matched.

Named rules are evaluated at most once at each offset: a chart holds the rows of suspended
results (`Row`) of the remaining offsets. A row is filled in the order of the grammar's ranking,
so a rule may refer, at its own offset, to rules of lower rank only.
-/

namespace TemplateLint.Grammar

/-! ## Expressions -/

/-- Where a match lies: from `start` to `stop`, its last lexeme that is not trivia
ending at `content`. -/
structure Extent where
  start : Nat
  content : Nat
  stop : Nat
  deriving DecidableEq, Repr

/-- A grammar expression that reads a value of the given type. Rules are named by
`Category` and all read a `Value`; a match may be refused with a `Fault`. -/
inductive Peg (Category Value Fault : Type) : Type → Type 1 where
  | pure {α : Type} (value : α) : Peg Category Value Fault α
  | terminal (class_ : Terminal) : Peg Category Value Fault String
  | rule (name : Category) : Peg Category Value Fault Value
  | sequence {α β : Type} (first : Peg Category Value Fault (α → β))
      (second : Peg Category Value Fault α) :
      Peg Category Value Fault β
  | choice {α : Type} (first second : Peg Category Value Fault α) : Peg Category Value Fault α
  | optional {α : Type} (part : Peg Category Value Fault α) : Peg Category Value Fault (Option α)
  | many {α : Type} (part : Peg Category Value Fault α) : Peg Category Value Fault (List α)
  /-- Reads nothing, and fails before a lexeme of the given class. -/
  | unless (class_ : Terminal) : Peg Category Value Fault Unit
  | located {α : Type} (part : Peg Category Value Fault α) : Peg Category Value Fault (Extent × α)
  | verbatim {α : Type} (part : Peg Category Value Fault α) : Peg Category Value Fault (List Char)
  | check {α β : Type} (part : Peg Category Value Fault α) (accept : α → Except Fault β) :
      Peg Category Value Fault β

namespace Peg

variable {Category Value Fault : Type}

instance : Functor (Peg Category Value Fault) where
  map f part := .sequence (.pure f) part

instance : Pure (Peg Category Value Fault) where
  pure := .pure

instance : Seq (Peg Category Value Fault) where
  seq first second := .sequence first (second ())

instance : SeqLeft (Peg Category Value Fault) where
  seqLeft first second := .sequence (.sequence (.pure fun value _ => value) first) (second ())

instance : SeqRight (Peg Category Value Fault) where
  seqRight first second := .sequence (.sequence (.pure fun _ value => value) first) (second ())

instance {α : Type} : OrElse (Peg Category Value Fault α) where
  orElse first second := .choice first (second ())

end Peg

/-! ## Matches -/

/-- The lexemes of a match in order, kept as the tree of concatenations that built
it. -/
inductive Leaves where
  | nil
  | leaf (class_ : Terminal) (start width : Nat)
  | append (first second : Leaves)

namespace Leaves

def toList : Leaves → List (Terminal × Nat × Nat)
  | .nil => []
  | .leaf class_ start width => [(class_, start, width)]
  | .append first second => first.toList ++ second.toList

/-- Where the content ends: at the end of the last lexeme with any characters, or at
its start if it is trivia. -/
def contentStop? : Leaves → Option Nat
  | .nil => none
  | .leaf class_ start width =>
    if width = 0 then none
    else if class_ = .trivia then some start
    else some (start + width)
  | .append first second => second.contentStop? <|> first.contentStop?

end Leaves

/-- A successful reading: its value or the reason to refuse it, the number of
characters read and the lexemes they form. -/
structure Match (Fault α : Type) where
  value : Except Fault α
  width : Nat
  leaves : Leaves

namespace Match

variable {Fault α β γ : Type}

def empty (value : α) : Match Fault α := ⟨.ok value, 0, .nil⟩

def map (f : α → β) (result : Match Fault α) : Match Fault β :=
  ⟨result.value.map f, result.width, result.leaves⟩

/-- Two readings one after the other. The fault of the first is seen first. -/
def append (f : α → β → γ) (first : Match Fault α) (second : Match Fault β) : Match Fault γ :=
  ⟨do return f (← first.value) (← second.value), first.width + second.width,
    .append first.leaves second.leaves⟩

def extent (start : Nat) (result : Match Fault α) : Extent :=
  ⟨start, result.leaves.contentStop?.getD (start + result.width), start + result.width⟩

end Match

/-! ## Charts -/

/-- The results of named rules at one offset, each computed when first asked for. -/
abbrev Row (Category Value Fault : Type) := List (Category × Thunk (Option (Match Fault Value)))

structure Chart (Category Value Fault : Type) where
  offset : Nat
  text : List Char
  rows : List (Row Category Value Fault)

namespace Chart

variable {Category Value Fault : Type}

def advance (chart : Chart Category Value Fault) (width : Nat) : Chart Category Value Fault :=
  ⟨chart.offset + width, chart.text.drop width, chart.rows.drop width⟩

/-- The result of a rule at the start of a chart. At the end of the text no rule
matches. -/
def result? [BEq Category] (chart : Chart Category Value Fault) (name : Category) :
    Option (Match Fault Value) :=
  match chart.rows with
  | [] => none
  | row :: _ => (row.lookup name).bind Thunk.get

/-- Reads copies of a part one after the other, at most `fuel` of them, until one
does not match or reads nothing. -/
def iterate {α : Type} (read : Chart Category Value Fault → Option (Match Fault α)) :
    Nat → Chart Category Value Fault → Match Fault (List α)
  | 0, _ => .empty []
  | fuel + 1, chart =>
    match read chart with
    | none => .empty []
    | some first =>
      if first.width = 0 then first.map ([·])
      else first.append List.cons (iterate read fuel (chart.advance first.width))

end Chart

/-! ## Evaluation -/

namespace Peg

variable {Category Value Fault : Type} [BEq Category]

/-- What an expression reads at the start of a chart. -/
def eval {α : Type} :
    Peg Category Value Fault α → Chart Category Value Fault → Option (Match Fault α)
  | .pure value, _ => some (.empty value)
  | .terminal class_, chart =>
    (class_.scan chart.text).map fun width =>
      ⟨.ok (String.ofList (chart.text.take width)), width, .leaf class_ chart.offset width⟩
  | .rule name, chart => chart.result? name
  | .sequence first second, chart =>
    (first.eval chart).bind fun left =>
      (second.eval (chart.advance left.width)).map fun right =>
        left.append (fun f value => f value) right
  | .choice first second, chart =>
    match first.eval chart with
    | some result => some result
    | none => second.eval chart
  | .optional part, chart =>
    match part.eval chart with
    | some result => some (result.map some)
    | none => some (.empty none)
  | .many part, chart => some (chart.iterate part.eval chart.text.length)
  | .unless class_, chart => if (class_.scan chart.text).isSome then none else some (.empty ())
  | .located part, chart =>
    (part.eval chart).map fun result => result.map fun value =>
      (result.extent chart.offset, value)
  | .verbatim part, chart =>
    (part.eval chart).map fun result => result.map fun _ => chart.text.take result.width
  | .check part accept, chart =>
    (part.eval chart).map fun result =>
      ⟨result.value.bind accept, result.width, result.leaves⟩

end Peg

/-! ## Grammars -/

/-- Named rules with the order in which they are evaluated at one offset: a rule
refers to another one at its own offset only if that one is ranked before it. -/
structure RankedGrammar (Category Value Fault : Type) where
  ranked : List Category
  body : Category → Peg Category Value Fault Value

namespace RankedGrammar

variable {Category Value Fault : Type} [BEq Category]

def row (grammar : RankedGrammar Category Value Fault) (offset : Nat) (text : List Char)
    (later : List (Row Category Value Fault)) : Row Category Value Fault :=
  grammar.ranked.foldl (fun earlier name =>
    (name, Thunk.mk fun _ => (grammar.body name).eval ⟨offset, text, earlier :: later⟩) :: earlier)
    []

def rows (grammar : RankedGrammar Category Value Fault) :
    Nat → List Char → List (Row Category Value Fault)
  | _, [] => []
  | offset, c :: rest =>
    let later := grammar.rows (offset + 1) rest
    grammar.row offset (c :: rest) later :: later

def chart (grammar : RankedGrammar Category Value Fault) (text : List Char) :
    Chart Category Value Fault :=
  ⟨0, text, grammar.rows 0 text⟩

/-- What an expression reads at the start of a text. -/
def read {α : Type} (grammar : RankedGrammar Category Value Fault)
    (start : Peg Category Value Fault α) (text : List Char) : Option (Match Fault α) :=
  start.eval (grammar.chart text)

end RankedGrammar

end TemplateLint.Grammar
