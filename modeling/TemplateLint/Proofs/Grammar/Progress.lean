import Mathlib.Logic.Relation
import TemplateLint.Grammar.Parse
import TemplateLint.Proofs.Grammar.Reading

/-!
# Reading comes to an end

`Invokes` is the relation between a call of an expression and the calls it makes. In a progressive
grammar every call makes calls with less text behind them, or, at the same offset, calls that
can reach rules of lower rank only, or else parts of the expression itself. So no chain of calls is
infinite (`RankedGrammar.Progressive.terminates`). The grammar of source texts is progressive
(`progressive_sourceGrammar`).
-/

namespace TemplateLint.Grammar

variable {Category Value Fault : Type}

/-! ## Calls -/

/-- An expression that is to be read at an offset. -/
structure Call (Category Value Fault : Type) where
  {result : Type}
  part : Peg Category Value Fault result
  offset : Nat

/-- The calls that reading an expression makes. A part that is read after another one is called
behind what the other one has read, and an alternative is called when those before it fail. -/
inductive Invokes (grammar : RankedGrammar Category Value Fault) (source : List Char) :
    Call Category Value Fault → Call Category Value Fault → Prop where
  | body (name : Category) (offset : Nat) :
      Invokes grammar source ⟨.rule name, offset⟩ ⟨grammar.body name, offset⟩
  | first {α β : Type} (first : Peg Category Value Fault (α → β))
      (second : Peg Category Value Fault α) (offset : Nat) :
      Invokes grammar source ⟨.sequence first second, offset⟩ ⟨first, offset⟩
  | second {α β : Type} {first : Peg Category Value Fault (α → β)}
      (second : Peg Category Value Fault α) {offset : Nat} {left : Match Fault (α → β)}
      (read : Reads grammar first offset (source.drop offset) (some left)) :
      Invokes grammar source ⟨.sequence first second, offset⟩ ⟨second, offset + left.width⟩
  | alternative {α : Type} (first second : Peg Category Value Fault α) (offset : Nat) :
      Invokes grammar source ⟨.choice first second, offset⟩ ⟨first, offset⟩
  | otherwise {α : Type} {first : Peg Category Value Fault α}
      (second : Peg Category Value Fault α) {offset : Nat}
      (fails : Reads grammar first offset (source.drop offset) none) :
      Invokes grammar source ⟨.choice first second, offset⟩ ⟨second, offset⟩
  | optional {α : Type} (part : Peg Category Value Fault α) (offset : Nat) :
      Invokes grammar source ⟨.optional part, offset⟩ ⟨part, offset⟩
  | copy {α : Type} (part : Peg Category Value Fault α) (offset : Nat) :
      Invokes grammar source ⟨.many part, offset⟩ ⟨part, offset⟩
  | again {α : Type} {part : Peg Category Value Fault α} {offset : Nat} {copy : Match Fault α}
      (read : Reads grammar part offset (source.drop offset) (some copy)) :
      Invokes grammar source ⟨.many part, offset⟩ ⟨.many part, offset + copy.width⟩
  | located {α : Type} (part : Peg Category Value Fault α) (offset : Nat) :
      Invokes grammar source ⟨.located part, offset⟩ ⟨part, offset⟩
  | verbatim {α : Type} (part : Peg Category Value Fault α) (offset : Nat) :
      Invokes grammar source ⟨.verbatim part, offset⟩ ⟨part, offset⟩
  | check {α β : Type} (part : Peg Category Value Fault α) (accept : α → Except Fault β)
      (offset : Nat) : Invokes grammar source ⟨.check part accept, offset⟩ ⟨part, offset⟩

def Peg.size {α : Type} : Peg Category Value Fault α → Nat
  | .pure _ => 0
  | .terminal _ => 0
  | .rule _ => 0
  | .sequence first second => first.size + second.size + 1
  | .choice first second => first.size + second.size + 1
  | .optional part => part.size + 1
  | .many part => part.size + 1
  | .unless _ => 0
  | .located part => part.size + 1
  | .verbatim part => part.size + 1
  | .check part _ => part.size + 1

namespace Call

/-- What a call has before it: the text behind its offset, the ranks that it may call at its
offset and the size of its expression. -/
def measure (rank : Category → Nat) (source : List Char) (call : Call Category Value Fault) :
    Nat × Nat × Nat :=
  (source.length - call.offset, call.part.height rank, call.part.size)

/-- A call comes before another one: less text is left, or its rule is ranked lower, or its
expression is smaller. -/
def Below (rank : Category → Nat) (source : List Char) (lower upper : Call Category Value Fault) :
    Prop :=
  Prod.Lex Nat.lt (Prod.Lex Nat.lt Nat.lt) (lower.measure rank source) (upper.measure rank source)

variable {rank : Category → Nat} {source : List Char}

theorem wellFounded_below :
    WellFounded fun lower upper : Call Category Value Fault => lower.Below rank source upper :=
  InvImage.wf _ (Prod.lex Nat.lt_wfRel (Prod.lex Nat.lt_wfRel Nat.lt_wfRel)).wf

theorem below_of_offset {lower upper : Call Category Value Fault}
    (moves : upper.offset < lower.offset) (inside : lower.offset ≤ source.length) :
    lower.Below rank source upper := by
  apply Prod.Lex.left
  show source.length - lower.offset < source.length - upper.offset
  omega

variable {α β : Type} {part : Peg Category Value Fault α} {whole : Peg Category Value Fault β}
  {offset : Nat}

theorem below_of_reads {γ : Type} {former : Peg Category Value Fault γ} {result : Match Fault γ}
    {grammar : RankedGrammar Category Value Fault}
    (read : Reads grammar former offset (source.drop offset) (some result))
    (moves : 0 < result.width) :
    Below rank source ⟨part, offset + result.width⟩ ⟨whole, offset⟩ := by
  have inside := read.width_le result rfl
  rw [List.length_drop] at inside
  apply below_of_offset
  · exact Nat.lt_add_of_pos_right moves
  · show offset + result.width ≤ source.length
    omega

theorem below_of_height (low : part.height rank < whole.height rank) :
    Below rank source ⟨part, offset⟩ ⟨whole, offset⟩ :=
  .right _ (.left _ _ low)

theorem below_of_size (low : part.height rank ≤ whole.height rank)
    (small : part.size < whole.size) : Below rank source ⟨part, offset⟩ ⟨whole, offset⟩ := by
  rcases Nat.lt_or_eq_of_le low with less | same
  · exact below_of_height less
  · simp only [Below, measure, same]
    exact .right _ (.right _ small)

end Call

namespace Invokes

variable {grammar : RankedGrammar Category Value Fault} {source : List Char}
  {caller callee : Call Category Value Fault}

theorem repeatsProgress (bodies : ∀ name, (grammar.body name).repeatsProgress = true)
    (invoked : Invokes grammar source caller callee)
    (progress : caller.part.repeatsProgress = true) : callee.part.repeatsProgress = true := by
  cases invoked with
  | body name offset => exact bodies name
  | first first second offset | alternative first second offset =>
    exact (Bool.and_eq_true_iff.1 progress).1
  | second second read | otherwise second fails | copy part offset =>
    exact (Bool.and_eq_true_iff.1 progress).2
  | again read => exact progress
  | optional part offset | located part offset | verbatim part offset | check part accept offset =>
    exact progress

variable [BEq Category]

/-- **What is called is below its caller.** -/
theorem below (progressive : grammar.Progressive) (invoked : Invokes grammar source caller callee)
    (progress : caller.part.repeatsProgress = true) :
    callee.Below grammar.rank source caller := by
  cases invoked with
  | body name offset =>
    exact Call.below_of_height (Nat.lt_succ_of_le (progressive.climbs name))
  | first first second offset | alternative first second offset =>
    exact Call.below_of_size (Nat.le_max_left _ _) (by rw [Peg.size]; omega)
  | @second α β first second offset left read =>
    rcases Nat.eq_zero_or_pos left.width with still | moves
    · -- The first part has read nothing, so the rules that the second one calls count.
      have nullable := read.nullable_of_width_eq_zero progressive.filled still
      rw [still]
      apply Call.below_of_size
      · rw [Peg.height, if_pos nullable]
        exact Nat.le_max_right _ _
      · rw [Peg.size]
        omega
    · exact Call.below_of_reads read moves
  | otherwise second fails =>
    exact Call.below_of_size (Nat.le_max_right _ _) (by rw [Peg.size]; omega)
  | @again α part offset copy read =>
    have filled : part.nullable = false := by
      rw [← Bool.not_eq_true']
      exact (Bool.and_eq_true_iff.1 progress).1
    exact Call.below_of_reads read (read.width_pos progressive.filled filled copy rfl)
  | copy part offset | optional part offset | located part offset | verbatim part offset
  | check part accept offset =>
    exact Call.below_of_size (Nat.le_refl _) (Nat.lt_succ_self _)

theorem acc (progressive : grammar.Progressive) {call : Call Category Value Fault}
    (progress : call.part.repeatsProgress = true) :
    Acc (Function.swap (Invokes grammar source)) call := by
  have founded : WellFounded fun lower upper : Call Category Value Fault =>
      lower.Below grammar.rank source upper := Call.wellFounded_below
  induction call using founded.induction with
  | _ call ih =>
    constructor
    intro callee invoked
    exact ih callee (invoked.below progressive progress)
      (invoked.repeatsProgress progressive.repeats progress)

end Invokes

theorem not_rel_self_of_acc {α : Type 1} {r : α → α → Prop} {a : α} (acc : Acc r a) : ¬ r a a := by
  induction acc with
  | intro x _ ih => exact fun loop => ih x loop loop

/-! ## The parts of a grammar -/

namespace Peg

/-- An expression is a part of another one, rules not opened. -/
inductive Within {α : Type} (part : Peg Category Value Fault α) :
    {β : Type} → Peg Category Value Fault β → Prop where
  | self : Within part part
  | first {β γ : Type} {first : Peg Category Value Fault (β → γ)}
      (second : Peg Category Value Fault β) (inner : Within part first) :
      Within part (.sequence first second)
  | second {β γ : Type} (first : Peg Category Value Fault (β → γ))
      {second : Peg Category Value Fault β} (inner : Within part second) :
      Within part (.sequence first second)
  | alternative {β : Type} {first : Peg Category Value Fault β}
      (second : Peg Category Value Fault β) (inner : Within part first) :
      Within part (.choice first second)
  | otherwise {β : Type} (first : Peg Category Value Fault β)
      {second : Peg Category Value Fault β} (inner : Within part second) :
      Within part (.choice first second)
  | optional {β : Type} {whole : Peg Category Value Fault β} (inner : Within part whole) :
      Within part (.optional whole)
  | many {β : Type} {whole : Peg Category Value Fault β} (inner : Within part whole) :
      Within part (.many whole)
  | located {β : Type} {whole : Peg Category Value Fault β} (inner : Within part whole) :
      Within part (.located whole)
  | verbatim {β : Type} {whole : Peg Category Value Fault β} (inner : Within part whole) :
      Within part (.verbatim whole)
  | check {β γ : Type} {whole : Peg Category Value Fault β} (accept : β → Except Fault γ)
      (inner : Within part whole) : Within part (.check whole accept)

theorem Within.repeatsProgress {α β : Type} {part : Peg Category Value Fault α}
    {whole : Peg Category Value Fault β} (within : part.Within whole)
    (progress : whole.repeatsProgress = true) : part.repeatsProgress = true := by
  induction within with
  | self => exact progress
  | first second _ ih | alternative second _ ih => exact ih (Bool.and_eq_true_iff.1 progress).1
  | second first _ ih | otherwise first _ ih | many _ ih =>
    exact ih (Bool.and_eq_true_iff.1 progress).2
  | optional _ ih | located _ ih | verbatim _ ih | check accept _ ih => exact ih progress

end Peg

namespace RankedGrammar

/-- The expressions that the readings of a start expression consist of. -/
def HasPart (grammar : RankedGrammar Category Value Fault) {ω : Type}
    (start : Peg Category Value Fault ω) {α : Type} (part : Peg Category Value Fault α) : Prop :=
  part.Within start ∨ ∃ name, part.Within (grammar.body name)

/-- Reading a text by a grammar comes to an end wherever it is started. -/
structure Terminates [BEq Category] (grammar : RankedGrammar Category Value Fault) {ω : Type}
    (start : Peg Category Value Fault ω) (source : List Char) : Prop where
  /-- Every part has exactly one outcome at every offset: the one that is computed. -/
  outcome : ∀ {α : Type} (part : Peg Category Value Fault α), grammar.HasPart start part →
    ∀ offset ≤ source.length, ∀ outcome,
      Reads grammar part offset (source.drop offset) outcome
        ↔ part.eval ((grammar.chart source).advance offset) = outcome
  inside : ∀ {α : Type} (part : Peg Category Value Fault α), grammar.HasPart start part →
    ∀ offset ≤ source.length, ∀ result,
      Reads grammar part offset (source.drop offset) (some result) →
        offset + result.width ≤ source.length
  consumes : ∀ {α : Type} (part : Peg Category Value Fault α), grammar.HasPart start (.many part) →
    ∀ offset ≤ source.length, ∀ result,
      Reads grammar part offset (source.drop offset) (some result) → 0 < result.width
  finite : ∀ call : Call Category Value Fault, grammar.HasPart start call.part →
    Acc (Function.swap (Invokes grammar source)) call
  /-- No chain of calls comes back to the same expression at the same offset. -/
  acyclic : ∀ call : Call Category Value Fault, grammar.HasPart start call.part →
    ¬ Relation.TransGen (Invokes grammar source) call call

variable [BEq Category] [LawfulBEq Category] {grammar : RankedGrammar Category Value Fault}

/-- **Reading by a progressive grammar comes to an end.** -/
theorem Progressive.terminates (progressive : grammar.Progressive) {ω : Type}
    {start : Peg Category Value Fault ω} (repeats : start.repeatsProgress = true)
    (source : List Char) : grammar.Terminates start source := by
  have progress : ∀ {α : Type} {part : Peg Category Value Fault α},
      grammar.HasPart start part → part.repeatsProgress = true := by
    rintro α part (within | ⟨name, within⟩)
    · exact within.repeatsProgress repeats
    · exact within.repeatsProgress (progressive.repeats name)
  constructor
  case outcome =>
    intro α part member offset inside outcome
    exact progressive.reads_iff (progress member) source inside outcome
  case inside =>
    intro α part member offset inside result read
    have fits := read.width_le result rfl
    rw [List.length_drop] at fits
    omega
  case consumes =>
    intro α part member offset inside result read
    have filled : part.nullable = false := by
      rw [← Bool.not_eq_true']
      exact (Bool.and_eq_true_iff.1 (progress member)).1
    exact read.width_pos progressive.filled filled result rfl
  case finite =>
    intro call member
    exact Invokes.acc progressive (progress member)
  case acyclic =>
    intro call member loop
    have acc : Acc (Relation.TransGen (Function.swap (Invokes grammar source))) call :=
      (Invokes.acc progressive (progress member)).transGen
    exact not_rel_self_of_acc acc (Relation.transGen_swap.2 loop)

end RankedGrammar

/-! ## Source texts -/

open TemplateLint.Syntax

/-- Every rule of the grammar reads something, and at its own offset it calls lower rules only. -/
theorem progressive_sourceGrammar : sourceGrammar.Progressive where
  listed name := by cases name <;> decide
  distinct := by decide
  filled name := by cases name <;> decide
  repeats name := by cases name <;> decide
  climbs name := by cases name <;> decide

/-- What the program rule reads of a text: it does not fail on any (`read_program`). -/
def readProgram (text : List Char) : Match SyntaxError (List Node) :=
  (sourceGrammar.read program text).getD (.empty [])

theorem read_program (text : List Char) :
    sourceGrammar.read program text = some (readProgram text) := rfl

theorem reads_program (text : List Char) :
    Reads sourceGrammar program 0 text (some (readProgram text)) := by
  have progress : program.repeatsProgress = true := by decide
  have computed := progressive_sourceGrammar.reads_iff progress text (Nat.zero_le _)
    (some (readProgram text))
  exact computed.2 (read_program text)

/-- No text is rejected by the program rule itself. -/
theorem parse_eq (source : String) :
    parse source =
      let result := readProgram source.toList
      if result.width < source.toList.length then
        .error (.unexpectedInput result.width
          (SyntaxError.excerpt (source.toList.drop result.width)))
      else result.value.map fun body => ⟨⟨0, source.toList.length⟩, .program body⟩ := by
  rw [parse, read_program]

end TemplateLint.Grammar
