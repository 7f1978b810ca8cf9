import TemplateLint.Proofs.Grammar.Faults

/-!
# The checks of the grammar

What is read of a literal, an operator, a meta property, an exported class or an element with two
tags is checked, and the check may raise a fault. So a rejected text has input left over, or one of
these checks has raised its fault (`cases_of_rejected`); the program rule itself does not fail.
-/

namespace TemplateLint.Grammar

open TemplateLint.Syntax

/-! ## Faults of checks -/

/-- What is read of an element with two tags, before it is given its span. -/
def elementForm : Parser Form :=
  .check ((fun opening children closing => (opening, children, closing)) <$>
      openingTag <*> .many child <*> closingTag)
    fun (opening, children, closing) =>
      let expected := opening.1.render
      let found := closing.1.render
      if expected == found then .ok (.jsxElement opening.2 children (some closing.2))
      else .error (.closingTag closing.2.start expected found)

/-- The faults of literals, operators, meta properties and decorators. -/
def isInner : SyntaxError → Bool
  | .misplacedDecorators _ | .metaProperty .. | .unreadable => true
  | .unexpectedInput .. | .unexpectedToken .. | .closingTag .. => false

/-- The faults of a check are inner ones, or the names of the tags of an element are compared. -/
def MindsTags (α β : Type) (part : Parser α) (accept : α → Except SyntaxError β) : Prop :=
  (∀ value fault, accept value = .error fault → isInner fault = true)
    ∨ (⟨.check part accept, 0⟩ : Call Category Node SyntaxError) = ⟨elementForm, 0⟩

theorem isInner_of_readable {α β : Type} (value? : Option α) (f : α → β) (fault : SyntaxError)
    (raised : (readable value?).map f = .error fault) : isInner fault = true := by
  cases value? <;> cases raised
  rfl

theorem onlyChecks_literalOf (class_ : Terminal) (value? : List Char → Option LiteralValue) :
    (literalOf class_ value?).OnlyChecks MindsTags :=
  ⟨trivial, .inl fun _ => isInner_of_readable _ _, Peg.onlyChecks_of_isUnchecked rfl⟩

theorem onlyChecks_newTarget : newTarget.OnlyChecks MindsTags := by
  refine ⟨trivial, .inl ?_, Peg.onlyChecks_of_isUnchecked rfl⟩
  rintro ⟨extent, property⟩ fault raised
  dsimp only at raised
  split at raised <;> cases raised
  rfl

theorem isInner_of_operators (parts : List (String × Node)) (fault : SyntaxError)
    (raised : parts.mapM knownOperator = .error fault) : isInner fault = true := by
  induction parts with
  | nil => cases raised
  | cons part rest ih =>
    rw [List.mapM_cons] at raised
    cases first : knownOperator part with
    | error fault =>
      rw [first] at raised
      cases raised
      exact isInner_of_readable _ _ _ first
    | ok operator =>
      cases others : rest.mapM knownOperator with
      | error fault =>
        rw [first, others] at raised
        cases raised
        exact ih others
      | ok operators =>
        rw [first, others] at raised
        cases raised

theorem onlyChecks_operation : operation.OnlyChecks MindsTags := by
  refine ⟨.inl ?_, Peg.onlyChecks_of_isUnchecked rfl⟩
  rintro ⟨first, rest⟩ fault raised
  exact isInner_of_operators rest fault (eq_error_of_map raised)

theorem onlyChecks_assignmentExpression : assignmentExpression.OnlyChecks MindsTags :=
  ⟨trivial, .inl fun _ => isInner_of_readable _ _, Peg.onlyChecks_of_isUnchecked rfl⟩

theorem onlyChecks_elementForm : elementForm.OnlyChecks MindsTags :=
  ⟨.inr rfl, Peg.onlyChecks_of_isUnchecked rfl⟩

theorem mindsTags_exportDeclaration : MindsTags _ _ (.located (Prod.mk <$> .many decorator <*>
      (keyword "export" *>
        (exportDefault <|> exportAll <|> exportNamed <|> exportedDeclaration))))
    (fun (extent, decorators, form) =>
      match decorateExport decorators form with
      | some form => .ok form
      | none => .error (.misplacedDecorators extent.start)) := by
  refine .inl ?_
  rintro ⟨extent, decorators, form⟩ fault raised
  dsimp only at raised
  split at raised <;> cases raised
  rfl

theorem onlyChecks_body (name : Category) : (sourceGrammar.body name).OnlyChecks MindsTags := by
  cases name <;> repeat' first
    | exact Peg.onlyChecks_of_isUnchecked rfl
    | exact onlyChecks_literalOf _ _
    | exact onlyChecks_newTarget
    | exact onlyChecks_operation
    | exact onlyChecks_assignmentExpression
    | exact onlyChecks_elementForm
    | exact mindsTags_exportDeclaration
    | refine And.intro ?_ ?_

/-- **Why a text is rejected.** Input is left over behind the statements, or a check in the match of
the program has raised the fault. -/
theorem cases_of_rejected {source : String} {fault : SyntaxError}
    (rejected : parse source = .error fault) :
    (∃ offset excerpt, fault = .unexpectedInput offset excerpt) ∨ isInner fault = true
      ∨ ∃ offset, Call.Within sourceGrammar source.toList ⟨elementForm, offset⟩ ⟨program, 0⟩
        ∧ Call.Raises sourceGrammar source.toList fault ⟨elementForm, offset⟩ := by
  rw [parse_eq] at rejected
  dsimp only at rejected
  split at rejected
  · cases rejected
    exact .inl ⟨_, _, rfl⟩
  · have faulty := eq_error_of_map rejected
    obtain ⟨α, β, part, accept, offset, minds, within, raises⟩ :=
      (reads_program source.toList).exists_raised onlyChecks_body
        (Peg.onlyChecks_of_isUnchecked rfl) rfl _ rfl faulty
    rcases minds with inner | same
    · obtain ⟨-, value, -, -, raised⟩ := raises
      exact .inr (.inl (inner value fault raised))
    · have same : (⟨.check part accept, offset⟩ : Call Category Node SyntaxError)
          = ⟨elementForm, offset⟩ :=
        congrArg (fun call : Call Category Node SyntaxError => { call with offset := offset }) same
      rw [same] at within raises
      exact .inr (.inr ⟨offset, within, raises⟩)

/-! ## Wordings -/

/-- The wordings of the faults of source texts up to what they quote. -/
def messageFronts : List String :=
  ["Parsing error: unexpected input ",
    "Leading decorators must be attached to a class declaration",
    "The only valid meta property for new is new.target, not new.",
    "Expected corresponding JSX closing tag for <",
    "Parsing error: input is nested too deeply"]

theorem exists_front_of_rejected {source : String} {fault : SyntaxError}
    (rejected : parse source = .error fault) :
    ∃ front ∈ messageFronts, front.toList <+: fault.message.toList := by
  have starts : ∀ front rest : String, front.toList <+: (front ++ rest).toList := by
    intro front rest
    rw [String.toList_append]
    exact List.prefix_append _ _
  obtain ⟨offset, excerpt, rfl⟩ | inner | ⟨offset, -, raises⟩ := cases_of_rejected rejected
  · exact ⟨_, .head _, starts _ _⟩
  · cases fault with
    | misplacedDecorators offset => exact ⟨_, .tail _ (.head _), List.prefix_refl _⟩
    | metaProperty offset name => exact ⟨_, .tail _ (.tail _ (.head _)), starts _ _⟩
    | unreadable => exact ⟨_, .tail _ (.tail _ (.tail _ (.tail _ (.head _)))), List.prefix_refl _⟩
    | unexpectedInput | unexpectedToken | closingTag => cases inner
  · obtain ⟨-, ⟨opening, children, closing⟩, -, -, refused⟩ := raises
    dsimp only at refused
    split at refused <;> cases refused
    exact ⟨_, .tail _ (.tail _ (.tail _ (.head _))),
      (starts _ _).trans ((starts _ _).trans ((starts _ _).trans (starts _ _)))⟩

theorem message_not_unexpected {source : String} {fault : SyntaxError}
    (rejected : parse source = .error fault) {wording : String}
    (unused : wording ∈ ["Parsing error: unexpected token", "Parsing error: unexpected end"]) :
    ¬ wording.toList <+: fault.message.toList := by
  have differ : ∀ front ∈ messageFronts,
      ∀ wording ∈ ["Parsing error: unexpected token", "Parsing error: unexpected end"],
      wording.toList.length ≤ front.toList.length ∧ ¬ wording.toList <+: front.toList := by
    decide +kernel
  obtain ⟨front, member, begins⟩ := exists_front_of_rejected rejected
  obtain ⟨shorter, differs⟩ := differ front member wording unused
  intro starts
  exact differs (List.prefix_of_prefix_length_le starts begins shorter)

/-- **Reading a source text makes progress and comes to an end.** Every part of the grammar has
one outcome at every offset of the text, inside the text; what is repeated has characters; no
chain of calls is infinite or comes back to a call. The program rule does not fail, and no text
is rejected for an unexpected token or for its end. -/
theorem reading_terminates (source : String) :
    sourceGrammar.Terminates program source.toList
      ∧ Reads sourceGrammar program 0 source.toList (some (readProgram source.toList))
      ∧ ∀ error, parse source = .error error →
        ¬ "Parsing error: unexpected token".toList <+: error.message.toList
          ∧ error.message ≠ "Parsing error: unexpected end of input" := by
  refine ⟨progressive_sourceGrammar.terminates (by decide) source.toList,
    reads_program source.toList, fun error rejected => ⟨?_, ?_⟩⟩
  · exact message_not_unexpected rejected (.head _)
  · intro same
    apply message_not_unexpected rejected (.tail _ (.head _))
    rw [same]
    decide +kernel

/-- What no statement begins with is left over, and the text is rejected. -/
example : (parse "a; )").toBool = false := by decide +kernel

end TemplateLint.Grammar
