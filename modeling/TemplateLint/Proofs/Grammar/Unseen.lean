import TemplateLint.Proofs.Grammar.Moves

/-!
# Checking that a replacement is not seen

Whether a replacement is seen can be computed from a list of the rules that are called up to the
place and the offsets of these calls (`Replacement.settled`). If the first expression and the bodies
of the listed rules are settled, every call up to the place is, so the replacement is not seen
(`unseen_of_settled`).
-/

namespace TemplateLint.Grammar

open TemplateLint.Text

variable {Category Value Fault : Type}

theorem Invokes.offset_le {grammar : RankedGrammar Category Value Fault} {source : List Char}
    {caller callee : Call Category Value Fault} (invoked : Invokes grammar source caller callee) :
    caller.offset ≤ callee.offset := by
  cases invoked with
  | second _ read => exact Nat.le_add_right _ _
  | again read => exact Nat.le_add_right _ _
  | _ => exact Nat.le_refl _

namespace Replacement

variable (swap : Replacement)

/-- The same lexeme is read before and after the replacement, and it ends before it. -/
def keepsLexeme (class_ : Terminal) (offset : Nat) : Bool :=
  class_.scan (swap.target.drop offset) == class_.scan (swap.source.drop offset)
    && (class_.scan (swap.source.drop offset)).all fun width => offset + width ≤ swap.place

/-- The same text, without blanks at its end, is read before and after the replacement. -/
def keepsText (offset width : Nat) : Bool :=
  trim ((swap.target.drop offset).take (swap.move (offset + width) - offset))
    == trim ((swap.source.drop offset).take width)

/-- All copies of a repetition up to the replacement are settled. -/
def copiesSettled (settled : Nat → Bool) (width? : Nat → Option Nat) : Nat → Nat → Bool
  | 0, offset => swap.place < offset
  | fuel + 1, offset =>
    swap.place < offset
      || settled offset
        && (width? offset).all fun width => copiesSettled settled width? fuel (offset + width)

variable [BEq Category] (grammar : RankedGrammar Category Value Fault)

def width? {α : Type} (part : Peg Category Value Fault α) (offset : Nat) : Option Nat :=
  (part.eval ((grammar.chart swap.source).advance offset)).map Match.width

/-- The lexemes that reading an expression tries up to the place pass their tests, and the rules
that it calls there are listed. -/
def settled (listed : List (Category × Nat)) {α : Type} :
    Peg Category Value Fault α → Nat → Bool
  | .pure _, _ => true
  | .terminal class_, offset =>
    class_ == .trivia && offset == swap.place || swap.keepsLexeme class_ offset
  | .rule name, offset => listed.contains (name, offset)
  | .sequence first second, offset =>
    settled listed first offset
      && (swap.width? grammar first offset).all fun width =>
        swap.place < offset + width || settled listed second (offset + width)
  | .choice first second, offset =>
    settled listed first offset
      && ((swap.width? grammar first offset).isSome || settled listed second offset)
  | .optional part, offset => settled listed part offset
  | .many part, offset =>
    swap.copiesSettled (settled listed part) (swap.width? grammar part) (swap.place + 1) offset
  | .unless class_, offset =>
    (class_.scan (swap.target.drop offset)).isSome == (class_.scan (swap.source.drop offset)).isSome
  | .located part, offset => settled listed part offset
  | .verbatim part, offset =>
    settled listed part offset
      && (swap.width? grammar part offset).all fun width => swap.keepsText offset width
  | .check part _, offset => settled listed part offset

variable {swap} {grammar} {listed : List (Category × Nat)} [LawfulBEq Category]

theorem copiesSettled_succ {settled : Nat → Bool} {width? : Nat → Option Nat} {fuel offset : Nat}
    (copies : swap.copiesSettled settled width? fuel offset = true) :
    swap.copiesSettled settled width? (fuel + 1) offset = true := by
  induction fuel generalizing offset with
  | zero =>
    simp only [copiesSettled] at copies ⊢
    rw [copies, Bool.true_or]
  | succ fuel ih =>
    rw [copiesSettled, Bool.or_eq_true, Bool.and_eq_true] at copies ⊢
    rcases copies with passed | ⟨here, later⟩
    · exact .inl passed
    · rw [Option.all_eq_true] at later ⊢
      exact .inr ⟨here, fun width read => ih (later width read)⟩

theorem width?_of_reads (progressive : grammar.Progressive) {α : Type}
    {part : Peg Category Value Fault α} (progress : part.repeatsProgress = true) {offset : Nat}
    (before : offset ≤ swap.place) {outcome : Option (Match Fault α)}
    (reads : Reads grammar part offset (swap.source.drop offset) outcome) :
    swap.width? grammar part offset = outcome.map Match.width := by
  have inside : offset ≤ swap.source.length := by
    rw [length_source]
    omega
  rw [width?, (progressive.reads_iff progress swap.source inside outcome).1 reads]

theorem settled_of_invokes (progressive : grammar.Progressive)
    (closed : ∀ entry ∈ listed, swap.settled grammar listed (grammar.body entry.1) entry.2 = true)
    {caller callee : Call Category Value Fault} (invoked : Invokes grammar swap.source caller callee)
    (progress : caller.part.repeatsProgress = true) (before : caller.offset ≤ swap.place)
    (holds : swap.settled grammar listed caller.part caller.offset = true) :
    swap.place < callee.offset
      ∨ swap.settled grammar listed callee.part callee.offset = true := by
  cases invoked with
  | body name offset =>
    have called : (name, offset) ∈ listed := List.contains_iff_mem.1 holds
    exact .inr (closed _ called)
  | first first second offset | alternative first second offset | verbatim part offset =>
    exact .inr (Bool.and_eq_true_iff.1 holds).1
  | @second _ _ first second offset left read =>
    have width := width?_of_reads progressive (Bool.and_eq_true_iff.1 progress).1 before read
    have rest := (Bool.and_eq_true_iff.1 holds).2
    rw [width, Option.map_some, Option.all_some, Bool.or_eq_true, decide_eq_true_eq] at rest
    exact rest
  | otherwise second fails =>
    have width := width?_of_reads progressive (Bool.and_eq_true_iff.1 progress).1 before fails
    have rest := (Bool.and_eq_true_iff.1 holds).2
    rw [width, Option.map_none, Option.isSome_none, Bool.false_or] at rest
    exact .inr rest
  | optional part offset | located part offset | check part accept offset => exact .inr holds
  | copy part offset =>
    rw [settled, copiesSettled, Bool.or_eq_true, decide_eq_true_eq, Bool.and_eq_true] at holds
    exact holds.imp_right And.left
  | again read =>
    have width := width?_of_reads progressive (Bool.and_eq_true_iff.1 progress).2 before read
    rw [settled, copiesSettled, Bool.or_eq_true, decide_eq_true_eq, Bool.and_eq_true, width,
      Option.map_some, Option.all_some] at holds
    rcases holds with beyond | ⟨_, later⟩
    · exact .inl (Nat.lt_of_lt_of_le beyond (Nat.le_add_right _ _))
    · exact .inr (copiesSettled_succ later)

theorem settled_of_calls (progressive : grammar.Progressive)
    (closed : ∀ entry ∈ listed, swap.settled grammar listed (grammar.body entry.1) entry.2 = true)
    {γ : Type} {start : Peg Category Value Fault γ} (progress : start.repeatsProgress = true)
    (begins : swap.settled grammar listed start 0 = true) {call : Call Category Value Fault}
    (called : swap.Calls grammar start call) :
    call.part.repeatsProgress = true
      ∧ (swap.place < call.offset
        ∨ swap.settled grammar listed call.part call.offset = true) := by
  induction called with
  | refl => exact ⟨progress, .inr begins⟩
  | @tail caller callee _ invoked ih =>
    obtain ⟨progress, holds⟩ := ih
    refine ⟨invoked.repeatsProgress progressive.repeats progress, ?_⟩
    rcases Nat.lt_or_ge swap.place caller.offset with passed | before
    · exact .inl (Nat.lt_of_lt_of_le passed invoked.offset_le)
    · have settled := holds.resolve_left (Nat.not_lt.2 before)
      exact settled_of_invokes progressive closed invoked progress before settled

/-- **A replacement that is settled is not seen.** -/
theorem unseen_of_settled (progressive : grammar.Progressive)
    (closed : ∀ entry ∈ listed, swap.settled grammar listed (grammar.body entry.1) entry.2 = true)
    {γ : Type} {start : Peg Category Value Fault γ} (progress : start.repeatsProgress = true)
    (begins : swap.settled grammar listed start 0 = true) : swap.Unseen grammar start where
  lexeme class_ offset called before other := by
    obtain ⟨_, holds⟩ := settled_of_calls progressive closed progress begins called
    have tested := holds.resolve_left (Nat.not_lt.2 before)
    rw [settled, keepsLexeme, Bool.or_eq_true, Bool.and_eq_true, Bool.and_eq_true, beq_iff_eq,
      beq_iff_eq, beq_iff_eq, Option.all_eq_true] at tested
    rcases tested with ⟨blank, here⟩ | ⟨same, ends⟩
    · exact absurd (other blank) (Nat.not_lt.2 (Nat.le_of_eq here.symm))
    · exact ⟨same, fun width scanned => of_decide_eq_true (ends width scanned)⟩
  guard class_ offset called before := by
    obtain ⟨_, holds⟩ := settled_of_calls progressive closed progress begins called
    exact beq_iff_eq.1 (holds.resolve_left (Nat.not_lt.2 before))
  kept part offset result called before reads := by
    obtain ⟨whole, holds⟩ := settled_of_calls progressive closed progress begins called
    have inner : part.repeatsProgress = true := whole
    have width := width?_of_reads progressive inner before reads
    have tested := (Bool.and_eq_true_iff.1 (holds.resolve_left (Nat.not_lt.2 before))).2
    rw [width, Option.map_some, Option.all_some] at tested
    exact beq_iff_eq.1 tested

end Replacement

end TemplateLint.Grammar
