import TemplateLint.Proofs.Grammar.Placement.Statement
import TemplateLint.Proofs.Grammar.Progress
import TemplateLint.Proofs.Text.LineIndex

/-!
# The spans of a syntax tree

The bodies of all rules yield nested nodes (`yields_body`), so whatever the grammar reads lies where
it was read (`run_of_reads`), and the tree of a source text is nested (`nested_of_parse`). The spans
in it are therefore well formed (`spans_of_parse`).
-/

namespace TemplateLint.Grammar

open TemplateLint.Syntax TemplateLint.Text Peg

/-- Every rule of the grammar yields a nested node that lies where it is read. -/
theorem yields_body (name : Category) : (sourceGrammar.body name).YieldsNode := by
  cases name with
  | bindingTarget => exact yields_bindingTargetBody
  | jsxElement => exact yields_jsxElementBody
  | jsxFragment => exact yields_jsxFragmentBody
  | construction => exact yields_constructionBody
  | primary => exact yields_primaryBody
  | callExpression => exact yields_callExpressionBody
  | unary => exact yields_unaryBody
  | assignment => exact yields_assignmentBody
  | expression => exact yields_expressionBody
  | statement => exact yields_statementBody

theorem run_of_reads {α : Type} {part : Parser α} {nodes : α → List Node} (yields : part.Yields nodes)
    {source : List Char} {offset : Nat} {result : Match SyntaxError α} {value : α}
    (reads : Reads sourceGrammar part offset (source.drop offset) (some result))
    (accepted : result.value = .ok value) :
    Run source offset (offset + result.width) (nodes value) := by
  have assumed : ∀ name cursor, (sourceGrammar.body name).Tracks source (placed source) cursor
      fun after node => placed source name cursor.place after.content node := by
    intro name cursor
    apply ((yields_body name).run source cursor).mono
    rintro after node ⟨_, run⟩
    exact run
  obtain ⟨after, follows, _, run⟩ := reads.tracks progressive_sourceGrammar.filled assumed result value
    (.ofPlace offset) _ rfl accepted rfl rfl (yields.run source _)
  have inside : after.content ≤ offset + result.width :=
    follows.place ▸ after.ordered
  exact run.mono (Nat.le_refl _) inside

theorem yields_program : program.Yields fun body => body.flatMap fun node => [node] := .after

/-- The nodes of a parsed text are nested, and the program spans the text. -/
theorem nested_of_parse {source : String} {root : Node} (parsed : parse source = .ok root) :
    root.Nested source.toList ∧ root.stop = source.length := by
  simp only [parse_eq] at parsed
  split at parsed
  next => cases parsed
  next reached =>
    obtain ⟨body, accepted, rfl⟩ := Match.eq_ok_of_map_eq_ok parsed
    have read := reads_program source.toList
    have run := run_of_reads yields_program read accepted
    rw [List.flatMap_singleton'] at run
    have whole : 0 + (readProgram source.toList).width ≤ source.toList.length := by
      rw [Nat.zero_add]
      exact read.width_le _ rfl
    have fits : Fits body (.program body) := fits_parts (by simp [Form.fields])
    exact ⟨fits _ _ _ (Nat.zero_le _) (run.mono (Nat.le_refl _) whole),
      by rw [← String.length_toList]; rfl⟩

/-- **Spans are well formed.** Wherever a node stands in the tree of a source text, its span is in
order and inside the text, and its position is found by counting line feeds; its children come in
the order of their starts and lie inside it, apart from decorators of an exported class that were
written before the `export`. -/
theorem spans_of_parse {source : String} {root : Node} (parsed : parse source = .ok root)
    {place : Path} {tree : Tree} (listed : (place, tree) ∈ root.tree.places) :
    tree.node.start ≤ tree.node.stop ∧ tree.node.stop ≤ source.length
      ∧ (LineIndex.ofText source.toList).position tree.node.start
          = ⟨(source.toList.take tree.node.start).count '\n' + 1,
              ((source.toList.take tree.node.start).reverse.takeWhile (· != '\n')).length + 1⟩
      ∧ (∀ child ∈ tree.children,
          (tree.node.start ≤ child.2.node.start ∧ child.2.node.stop ≤ tree.node.stop)
            ∨ IsMovedDecorator source.toList root.tree place child)
      ∧ (tree.children.map (·.2.node.start)).Pairwise (· ≤ ·) := by
  obtain ⟨nested, whole⟩ := nested_of_parse parsed
  have above : root.tree.Nested source.toList root.tree.node.start := by
    rw [Node.node_tree]
    exact nested
  obtain ⟨ordered, before, inside, sorted⟩ := above.spans root.isView_tree listed
  have bounded : tree.node.stop ≤ source.length := by
    rw [Node.node_tree, whole] at before
    exact before
  refine ⟨ordered, bounded, LineIndex.position_ofText ?_, inside, sorted⟩
  rw [String.length_toList]
  exact Nat.le_trans ordered bounded

/-- In the tree of a line feed and `@a export class B {}` the class starts in the second line, and
its decorator stands before it. -/
theorem spans_of_parse_decorated : ∃ root, parse "\n@a export class B \x7b\x7d" = .ok root
    ∧ ∃ definition decorator, ([⟨.declaration, 0⟩, ⟨.body, 0⟩], definition) ∈ root.tree.places
      ∧ (⟨.decorators, 0⟩, decorator) ∈ definition.children
      ∧ (LineIndex.ofText "\n@a export class B \x7b\x7d".toList).position definition.node.start
          = ⟨2, 11⟩
      ∧ IsMovedDecorator "\n@a export class B \x7b\x7d".toList root.tree
          [⟨.declaration, 0⟩, ⟨.body, 0⟩] (⟨.decorators, 0⟩, decorator) := by
  have run : ((parse "\n@a export class B \x7b\x7d").toOption.any fun root =>
      (root.tree.at? [⟨.declaration, 0⟩, ⟨.body, 0⟩]).any fun definition =>
        definition.node.start == 11
          && (definition.child? ⟨.decorators, 0⟩).any fun decorator =>
            decorator.node.start < definition.node.start) = true := by
    decide +kernel
  obtain ⟨root, parsed, run⟩ := exists_of_any_parse run
  obtain ⟨definition, found, run⟩ := (Option.any_eq_true _ _).1 run
  obtain ⟨start, run⟩ := Bool.and_eq_true_iff.1 run
  obtain ⟨decorator, child, before⟩ := (Option.any_eq_true _ _).1 run
  have listed := (Tree.mem_places_iff root.isView_tree _ _).2 found
  have view := Tree.isView_at? root.isView_tree found
  have member := (Tree.child?_eq_some_iff view _ _).1 child
  obtain ⟨-, -, position, inside, -⟩ := spans_of_parse parsed listed
  refine ⟨root, parsed, definition, decorator, listed, member, ?_, ?_⟩
  · rw [position, beq_iff_eq.1 start]
    decide
  · rcases inside _ member with within | moved
    · exact absurd within.1 (Nat.not_le_of_lt (of_decide_eq_true before))
    · exact moved

/-- The program goes to the end of the text, and its statement ends before the blank. -/
example : (parse "a; ").toOption.map Node.span = some ⟨0, 3⟩ := by decide +kernel

end TemplateLint.Grammar
