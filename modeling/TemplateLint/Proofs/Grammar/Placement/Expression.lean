import TemplateLint.Proofs.Grammar.Folding
import TemplateLint.Proofs.Grammar.Placement.Part

/-!
# Where expressions lie

The productions of expressions yield nested nodes. The target of an assignment is turned into a
pattern, which stands exactly where its expression does, and operands are joined by precedence into
nodes that span a run of operands.
-/

namespace TemplateLint.Grammar

open TemplateLint.Syntax Peg

/-! ## Patterns of assignment targets -/

mutual

theorem replaces_toPattern : (node : Node) → Replaces node (toPattern node)
  | ⟨span, form⟩ => by
    cases form with
    | arrayExpression elements =>
      rw [toPattern]
      apply replaces_form rfl
      simpa [Form.fields] using replaces_toPatterns? elements
    | objectExpression properties =>
      rw [toPattern]
      apply replaces_form rfl
      simpa [Form.fields] using replaces_propertyPatterns properties
    | spreadElement argument =>
      rw [toPattern]
      apply replaces_form rfl
      simpa [Form.fields] using replaces_toPattern argument
    | assignment left operator right =>
      cases operator with
      | plain =>
        rw [toPattern]
        apply replaces_form rfl
        simpa [Form.fields] using ⟨Replaces.refl left, Replaces.refl right⟩
      | compound => exact .refl _
    | _ => exact .refl _

theorem replaces_toPatterns? : (elements : List (Option Node)) →
    List.Forall₂ Replaces (elements.filterMap id) ((toPatterns? elements).filterMap id)
  | [] => .nil
  | none :: rest => replaces_toPatterns? rest
  | some element :: rest => .cons (replaces_toPattern element) (replaces_toPatterns? rest)

theorem replaces_propertyPatterns : (properties : List Node) →
    List.Forall₂ Replaces properties (propertyPatterns properties)
  | [] => .nil
  | ⟨span, form⟩ :: rest => by
    have others := replaces_propertyPatterns rest
    cases form with
    | property key value style computed =>
      refine .cons (replaces_form rfl ?_) others
      simpa [Form.fields] using ⟨Replaces.refl key, replaces_toPattern value⟩
    | spreadElement argument =>
      refine .cons (replaces_form rfl ?_) others
      simpa [Form.fields] using replaces_toPattern argument
    | _ => exact .cons (.refl _) others

end

theorem gathers_toPattern (node : Node) : Gathers [node] [toPattern node] := by
  intro source low high run
  have replaced := replaces_toPattern node
  have inside := run.inside node (.head _)
  apply Run.single (replaced.nested source (run.nested node (.head _)))
  · rw [Node.start, replaced.span]
    exact inside.1
  · rw [Node.stop, replaced.span]
    exact inside.2

/-! ## Operators -/

theorem gathers_joinOperands (left : Node) (op : BinaryOp) (right : Node) :
    Gathers [left, right] [joinOperands left op right] := by
  have fits : Fits [left, right] (.binary left op right) := fits_parts (by simp [Form.fields])
  exact fits.gathers

theorem gathers_node (grouping : Grouping) : Gathers grouping.operands [grouping.node] := by
  induction grouping with
  | operand node => exact fun source low high run => run
  | apply left op right leftIH rightIH =>
    intro source low high run
    rw [Grouping.operands_apply] at run
    have joined := leftIH.within [] right.operands source low high run
    exact gathers_joinOperands left.node op right.node source low high
      (by simpa using rightIH.within [left.node] [] source low high (by simpa using joined))

/-! ## Expressions -/

instance yields_arrayLiteral : arrayLiteral.YieldsNode :=
  yields_wrapped rfl fun _ => by simp [Form.fields]

instance yields_objectMethod : objectMethod.YieldsNode := by
  refine yields_node rfl (builds_map₅ fun accessor generator key params body => ?_)
  intro source low high ordered run
  have method := gathers_methodFunction (accessor == some "async") generator params body
  exact fits_property key.1 _ _ _ source low high ordered (method.within [key.1] [] source low high run)

instance yields_keyedProperty : keyedProperty.YieldsNode :=
  yields_node rfl (builds_map₂ fun key value => fits_property key.1 value .keyed key.2)

instance yields_objectLiteral : objectLiteral.YieldsNode :=
  yields_wrapped rfl fun _ => by simp [Form.fields]

instance yields_primaryBody : primaryBody.YieldsNode :=
  .orElse (yields_wrapped rfl fun _ => by simp [Form.fields]) inferInstance

theorem yields_applyTails {head : Parser Node} {tail : Parser Tail} [head.YieldsNode]
    [tail.Yields Tail.nodes] (filled : tail.nullable = false) :
    ((fun head tails => tails.foldl applyTail head) <$> head <*> .many (.located tail)).Yields
      fun node => [node] := by
  have located := yields_locatedTail filled
  refine Builds.yields (builds_map₂ fun head tails => ?_)
  intro source low high run
  apply gathers_applyTails head tails
  simpa [List.map_eq_flatMap] using run

instance yields_newTarget : newTarget.YieldsNode := by
  have located : Yields (.located (keyword "new" *> symbol "." *> anyName)) fun _ => [] :=
    yields_located rfl (builds_part fun _ _ _ _ _ => .nil _ _ _)
  refine yields_node rfl (builds_check (builds_part fun value form accepted => ?_))
  simp only at accepted
  split at accepted
  · cases accepted
    exact fits_parts (by simp [Form.fields])
  · cases accepted

instance yields_constructed : constructed.YieldsNode := yields_applyTails rfl

instance yields_constructionBody : constructionBody.YieldsNode := by
  refine .orElse inferInstance (yields_node rfl (builds_map₂ fun callee arguments => ?_))
  cases arguments <;> exact fits_parts (by simp [Form.fields])

instance yields_super : (node ((fun _ => .super) <$> keyword "super")).YieldsNode :=
  yields_wrapped rfl fun _ => by simp [Form.fields]

instance yields_callExpressionBody : callExpressionBody.YieldsNode := yields_applyTails rfl

instance quiet_updateOperator : updateOperator.Quiet := .trimmed

instance quiet_unaryOperator : unaryOperator.Quiet := .trimmed

instance yields_unaryBody : unaryBody.YieldsNode := by
  refine .orElse (yields_node rfl (builds_map₂ fun operator argument => ?_))
    (.orElse (yields_node rfl (builds_map₂ fun operator argument => ?_))
      (.map (yields_located rfl (builds_map₂ fun argument operator? => ?_))))
  · split <;> exact fits_parts (by simp [Form.fields])
  · exact fits_parts (by simp [Form.fields])
  · intro source extent ordered run
    cases operator? with
    | none => exact run
    | some operator =>
      have fits : Fits [argument] (.update operator argument false) :=
        fits_parts (by simp [Form.fields])
      exact fits.run ordered run

instance quiet_infixText : infixText.Quiet := .trimmed

instance yields_operation : operation.YieldsNode := by
  have part : (Prod.mk <$> infixText <*> unary).Yields fun part => [part.2] :=
    Builds.yields (builds_map₂ fun _ _ _ _ _ run => run)
  refine Builds.yields (builds_check (builds_map₂ fun first rest => ?_))
  intro node accepted source low high run
  obtain ⟨entries, known, rfl⟩ := Match.eq_ok_of_map_eq_ok accepted
  obtain ⟨grouping, same, folded⟩ := Grouping.exists_node_eq_foldOperators first entries
  rw [← folded]
  apply gathers_node grouping
  rw [same, map_snd_knownOperators known]
  simpa [List.map_eq_flatMap] using run

instance yields_conditional : conditional.YieldsNode := by
  have branches : (Prod.mk <$> (lexeme .question *> assignment <* symbol ":") <*> assignment).Yields
      fun branches => [branches.1, branches.2] :=
    Builds.yields (builds_map₂ fun _ _ _ _ _ run => run)
  refine .map (yields_located rfl (builds_map₂ fun test branches? => ?_))
  intro source extent ordered run
  cases branches? with
  | none => exact run
  | some branches =>
    have fits : Fits [test, branches.1, branches.2]
        (.conditional test branches.1 branches.2) := fits_parts (by simp [Form.fields])
    exact fits.run ordered run

instance yields_arrowParams : (params <|> (fun id : Ident => [id.node]) <$> identifier).Yields
    fun nodes => nodes.flatMap fun node => [node] :=
  .orElse yields_params (.map yields_identifier)

instance yields_arrowFunction : arrowFunction.YieldsNode :=
  yields_node rfl (builds_map₃ fun isAsync params body => fits_parts (by simp [Form.fields]))

instance yields_yieldExpression : yieldExpression.YieldsNode :=
  yields_node rfl (.skip (builds_map₂ fun delegate argument =>
    fits_parts (by simp [Form.fields])))

instance yields_assignmentExpression : assignmentExpression.YieldsNode := by
  refine yields_node rfl (builds_check (builds_map₃ fun left operator right => ?_))
  intro form accepted
  obtain ⟨op, _, rfl⟩ := Match.eq_ok_of_map_eq_ok accepted
  apply fits_of_gathers
  intro source low high run
  have target : Gathers [left] [if op == .plain then toPattern left else left] := by
    split
    · exact gathers_toPattern left
    · exact fun source low high run => run
  have gathered := target.within [] [right] source low high run
  simpa [Form.fields] using gathered

instance yields_assignmentBody : assignmentBody.YieldsNode := .choice

instance yields_expressionBody : expressionBody.YieldsNode := by
  refine .map (yields_located rfl (builds_part fun expressions source extent ordered run => ?_))
  rw [List.nil_append, List.flatMap_singleton'] at run
  simp only
  split
  · exact run
  · exact (fits_bundle expressions).run ordered run

end TemplateLint.Grammar
