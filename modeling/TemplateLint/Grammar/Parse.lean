import TemplateLint.Grammar.Expression
import TemplateLint.Grammar.Statement

/-!
# Parsing

`parse` reads a whole source text. The text is rejected at the first place where
no statement starts; only a text that is read to its end can be rejected for a
fault inside a statement.
-/

namespace TemplateLint.Grammar

open TemplateLint.Syntax

/-- The rule of each category. -/
def sourceGrammar : RankedGrammar Category Node SyntaxError where
  ranked := [.bindingTarget, .jsxElement, .jsxFragment, .construction, .primary,
    .callExpression, .unary, .assignment, .expression, .statement]
  body
    | .bindingTarget => bindingTargetBody
    | .jsxElement => jsxElementBody
    | .jsxFragment => jsxFragmentBody
    | .construction => constructionBody
    | .primary => primaryBody
    | .callExpression => callExpressionBody
    | .unary => unaryBody
    | .assignment => assignmentBody
    | .expression => expressionBody
    | .statement => statementBody

def program : Parser (List Node) := trivia *> .many statement

/-- The tree of a text, which is read from its first character to its last. -/
def parse (source : String) : Except SyntaxError Node :=
  let text := source.toList
  match sourceGrammar.read program text with
  | none => .error (.unexpectedToken 0 (SyntaxError.excerpt text))
  | some result =>
    if result.width < text.length then
      .error (.unexpectedInput result.width (SyntaxError.excerpt (text.drop result.width)))
    else result.value.map fun body => ⟨⟨0, text.length⟩, .program body⟩

theorem exists_of_any_parse {source : String} {check : Node → Bool}
    (passes : (parse source).toOption.any check = true) :
    ∃ root, parse source = .ok root ∧ check root = true := by
  cases parsed : parse source with
  | error fault =>
    rw [parsed] at passes
    cases passes
  | ok root =>
    rw [parsed] at passes
    exact ⟨root, rfl, passes⟩

end TemplateLint.Grammar
