import TemplateLint.Proofs.Grammar.Transport.Expression
import TemplateLint.Proofs.Grammar.Transport.Statement
import TemplateLint.Proofs.Grammar.Unseen

/-!
# Comments are insignificant where they are not seen

The bodies of all rules carry their nodes along (`carries_body`), so two texts that differ in the
trivia in one place are both rejected, or their trees differ in offsets only (`parse_replaced`).

The replacement must not be seen. It is seen where the text of an operator, or of the word of a
declaration or a loop, is taken together with the comments after it, and where a lexeme looks ahead
over blanks but not over comments (`parse_operator_comment`). At the start of a text it never is
(`toOption_parse_of_start`).
-/

namespace TemplateLint.Grammar

open TemplateLint.Syntax Peg

variable {σ : Nat → Nat}

/-- All rules of the grammar read moved nodes if offsets are moved. -/
theorem carries_body (name : Category) : (sourceGrammar.body name).CarriesNode σ := by
  cases name with
  | bindingTarget => exact carries_bindingTargetBody
  | jsxElement => exact carries_jsxElementBody
  | jsxFragment => exact carries_jsxFragmentBody
  | construction => exact carries_constructionBody
  | primary => exact carries_primaryBody
  | callExpression => exact carries_callExpressionBody
  | unary => exact carries_unaryBody
  | assignment => exact carries_assignmentBody
  | expression => exact carries_expressionBody
  | statement => exact carries_statementBody

theorem carries_program : program.Carries σ (List.map (Node.move σ)) := .after

variable {swap : Replacement}

theorem moved_readProgram (trivia : swap.IsTrivia) (unseen : swap.Unseen sourceGrammar program) :
    Match.Moved swap (Node.move swap.move) program 0 (readProgram swap.source)
      (readProgram swap.target) := by
  obtain ⟨outcome, reads, related⟩ := Reads.moved trivia unseen (fun name => (carries_body name).related)
    (reads_program swap.source) rfl .refl (.inl (Nat.zero_le _))
  rw [Replacement.move_of_le (Nat.zero_le _), List.drop_zero] at reads
  rw [reads.unique (reads_program swap.target)] at related
  cases related with
  | some moved => exact moved

theorem accords_parse (trivia : swap.IsTrivia) (unseen : swap.Unseen sourceGrammar program) :
    Accords (fun root root' => root' = root.move swap.move)
      (parse (String.ofList swap.source)) (parse (String.ofList swap.target)) := by
  have moved := moved_readProgram trivia unseen
  have width : (readProgram swap.target).width = swap.move (readProgram swap.source).width := by
    have ends := moved.width
    rw [Replacement.move_of_le (Nat.zero_le _), Nat.zero_add, Nat.zero_add] at ends
    exact ends.symm
  have outside : swap.Outside (readProgram swap.source).width := by
    have outside := moved.outside
    rwa [Nat.zero_add] at outside
  have whole := Replacement.move_lt_length_iff trivia outside
  simp only [parse_eq, String.toList_ofList, width, whole]
  split
  · trivial
  · refine Accords.map ((moved.value _ carries_program.related).mono fun body body' same => ?_)
    rw [Node.move, Form.move, moveAll_eq_map, same, Span.move, Replacement.move_length trivia,
      Replacement.move_of_le (Nat.zero_le _)]

/-- **Comments are insignificant where they are not seen.** If the trivia in one place of a text is
replaced by other trivia and the reading does not see the difference, both texts are rejected, or
both are accepted and their trees are the same but for offsets. -/
theorem parse_replaced (trivia : swap.IsTrivia) (unseen : swap.Unseen sourceGrammar program) :
    (∃ fault fault', parse (String.ofList swap.source) = .error fault
        ∧ parse (String.ofList swap.target) = .error fault')
      ∨ ∃ root, parse (String.ofList swap.source) = .ok root
        ∧ parse (String.ofList swap.target) = .ok (root.move swap.move)
        ∧ (root.move swap.move).tree = root.tree.move swap.move := by
  have accords := accords_parse trivia unseen
  cases parsed : parse (String.ofList swap.source) with
  | error fault =>
    cases parsed' : parse (String.ofList swap.target) with
    | error fault' => exact .inl ⟨fault, fault', rfl, rfl⟩
    | ok root' =>
      rw [parsed, parsed'] at accords
      cases accords
  | ok root =>
    cases parsed' : parse (String.ofList swap.target) with
    | error fault' =>
      rw [parsed, parsed'] at accords
      cases accords
    | ok root' =>
      rw [parsed, parsed'] at accords
      exact .inr ⟨root, rfl, congrArg Except.ok accords, root.tree_move swap.move⟩

/-- At the start of a text nothing is read but trivia, so no replacement is seen there. -/
theorem unseen_of_start (trivia : swap.IsTrivia) (first : swap.before = []) :
    swap.Unseen sourceGrammar program := by
  have place : swap.place = 0 := by rw [Replacement.place, first, List.length_nil]
  have blank : Terminal.trivia.scan swap.source = some swap.old.length := by
    rw [Replacement.source, first]
    exact trivia.scanOld
  have begins : swap.settled sourceGrammar [] program 0 = true := by
    refine Bool.and_eq_true_iff.2 ⟨?_, (Option.all_eq_true _ _).2 fun width read => ?_⟩
    · simp [Replacement.settled, Replacement.width?, Peg.eval, Match.empty, place, Grammar.trivia,
        skip, Functor.map]
    · have reads : Reads sourceGrammar (.sequence (.pure fun _ body => body) Grammar.trivia
          : Parser (List Node → List Node)) 0 (swap.source.drop 0) _ :=
        .sequence (.pure _) (.sequence (.pure _) (.terminal .trivia))
      rw [Replacement.width?_of_reads progressive_sourceGrammar rfl (Nat.zero_le _) reads] at read
      have scanned : Terminal.trivia.scan swap.source = some width := by
        simpa [Match.empty, Match.append] using read
      obtain rfl := Option.some.inj (blank.symm.trans scanned)
      simp [place, List.length_pos_of_ne_nil trivia.old]
  have closed : ∀ entry ∈ ([] : List (Category × Nat)), swap.settled sourceGrammar []
      (sourceGrammar.body entry.1) entry.2 = true := by simp
  exact Replacement.unseen_of_settled progressive_sourceGrammar closed (by decide) begins

/-- What stands before the first statement is insignificant in every text. -/
theorem toOption_parse_of_start (trivia : swap.IsTrivia) (first : swap.before = []) :
    (parse (String.ofList swap.target)).toOption
      = (parse (String.ofList swap.source)).toOption.map (Node.move swap.move) := by
  have accords := accords_parse trivia (unseen_of_start trivia first)
  cases parsed : parse (String.ofList swap.source) <;>
    cases parsed' : parse (String.ofList swap.target) <;> rw [parsed, parsed'] at accords
  · rfl
  · cases accords
  · cases accords
  · exact congrArg some accords

/-- The replacement of `f( a)` by `f(/* ) */a)`. -/
def argumentComment : Replacement where
  before := "f(".toList
  old := " ".toList
  new := "/* ) */".toList
  behind := "a)".toList

/-- The call `f(/* ) */a)` has the tree of `f( a)`, with offsets moved. -/
theorem parse_replaced_argument :
    argumentComment.IsTrivia ∧ argumentComment.Unseen sourceGrammar program
      ∧ ∃ root, parse "f( a)" = .ok root
        ∧ parse "f(/* ) */a)" = .ok (root.move argumentComment.move) := by
  have trivia : argumentComment.IsTrivia :=
    ⟨by decide, by decide, by decide +kernel, by decide +kernel⟩
  -- All rules may be called at the start, and none behind it up to the place.
  have closed : ∀ entry ∈ sourceGrammar.ranked.map (·, 0), argumentComment.settled sourceGrammar
      (sourceGrammar.ranked.map (·, 0)) (sourceGrammar.body entry.1) entry.2 = true := by
    decide +kernel
  have begins : argumentComment.settled sourceGrammar (sourceGrammar.ranked.map (·, 0)) program 0
      = true := by
    decide +kernel
  have unseen : argumentComment.Unseen sourceGrammar program :=
    Replacement.unseen_of_settled progressive_sourceGrammar closed (by decide) begins
  have source : String.ofList argumentComment.source = "f( a)" := by decide
  have target : String.ofList argumentComment.target = "f(/* ) */a)" := by decide
  have accepted : (parse "f( a)").toBool = true := by decide +kernel
  refine ⟨trivia, unseen, ?_⟩
  rcases parse_replaced trivia unseen with ⟨fault, _, rejected, _⟩ | ⟨root, parsed, moved, _⟩
  · rw [source] at rejected
    rw [rejected] at accepted
    cases accepted
  · rw [source] at parsed
    rw [target] at moved
    exact ⟨root, parsed, moved⟩

/-- The replacement of `a + b` by `a + /*c*/ b`. -/
def operatorComment : Replacement where
  before := "a +".toList
  old := " ".toList
  new := " /*c*/ ".toList
  behind := "b".toList

/-- The text of an operator is taken with the comments after it: `a + b` is a program, and
`a + /*c*/ b` is none. -/
theorem parse_operator_comment :
    operatorComment.IsTrivia ∧ (parse (String.ofList operatorComment.source)).toBool = true
      ∧ (parse (String.ofList operatorComment.target)).toBool = false := by
  refine ⟨⟨by decide, by decide, by decide +kernel, by decide +kernel⟩, ?_, ?_⟩
  · decide +kernel
  · decide +kernel

/-- A comment before an operator is trivia as any other. -/
example : (parse "a /*c*/ + b").toBool = true := by decide +kernel

end TemplateLint.Grammar
