import TemplateLint.Proofs.Grammar.Transport.Part

/-!
# Moving expressions

Turning a target into a pattern and joining operands by precedence depend on the forms of the
nodes and on the operators between them, never on offsets. So both commute with moving, and
expressions are moved as a whole.
-/

namespace TemplateLint.Grammar

open TemplateLint.Syntax Peg

variable {σ : Nat → Nat}

/-! ## Assignment targets -/

mutual

theorem toPattern_move : (node : Node) → toPattern (node.move σ) = (toPattern node).move σ
  | ⟨span, form⟩ => by
    cases form with
    | arrayExpression elements =>
      simp [toPattern, Node.move, Form.move, toPatterns?_move elements]
    | objectExpression properties =>
      simp [toPattern, Node.move, Form.move, propertyPatterns_move properties]
    | spreadElement argument =>
      simp [toPattern, Node.move, Form.move, toPattern_move argument]
    | assignment left operator right =>
      cases operator <;> simp [toPattern, Node.move, Form.move]
    | _ => simp [toPattern, Node.move, Form.move]

theorem toPatterns?_move : (elements : List (Option Node)) →
    toPatterns? (elements.map (Option.map (Node.move σ)))
      = (toPatterns? elements).map (Option.map (Node.move σ))
  | [] => by simp [toPatterns?]
  | none :: rest => by simp [toPatterns?, toPatterns?_move rest]
  | some element :: rest => by
    simp [toPatterns?, toPattern_move element, toPatterns?_move rest]

theorem propertyPatterns_move : (properties : List Node) →
    propertyPatterns (properties.map (Node.move σ))
      = (propertyPatterns properties).map (Node.move σ)
  | [] => by simp [propertyPatterns]
  | ⟨span, form⟩ :: rest => by
    have later := propertyPatterns_move rest
    cases form with
    | property key value style computed =>
      simp [propertyPatterns, Node.move, Form.move, toPattern_move value, later]
    | spreadElement argument =>
      simp [propertyPatterns, Node.move, Form.move, toPattern_move argument, later]
    | _ => simp [propertyPatterns, Node.move, Form.move, later]

end

/-! ## Operators -/

theorem joinOperands_move (left : Node) (op : BinaryOp) (right : Node) :
    joinOperands (left.move σ) op (right.move σ) = (joinOperands left op right).move σ := by
  simp [joinOperands, Node.move, Form.move, Span.move]

theorem applyAll_move (waiting : List (Node × BinaryOp)) (operand : Node) :
    applyAll (waiting.map (Prod.map (Node.move σ) id)) (operand.move σ)
      = (applyAll waiting operand).move σ := by
  induction waiting generalizing operand with
  | nil => rfl
  | cons entry rest ih =>
    have joined := ih (joinOperands entry.1 entry.2 operand)
    rw [← joinOperands_move] at joined
    exact joined

theorem applyWaiting_move (next : BinaryOp) (waiting : List (Node × BinaryOp)) (operand : Node) :
    applyWaiting next (waiting.map (Prod.map (Node.move σ) id)) (operand.move σ)
      = (applyWaiting next waiting operand).map (List.map (Prod.map (Node.move σ) id))
          (Node.move σ) := by
  induction waiting generalizing operand with
  | nil => rfl
  | cons entry rest ih =>
    obtain ⟨left, op⟩ := entry
    simp only [List.map_cons, Prod.map, id, applyWaiting]
    split
    · rw [joinOperands_move]
      exact ih (joinOperands left op operand)
    · rfl

theorem foldFrom_move (waiting : List (Node × BinaryOp)) (operand : Node)
    (rest : List (BinaryOp × Node)) :
    foldFrom (waiting.map (Prod.map (Node.move σ) id)) (operand.move σ)
        (rest.map (Prod.map id (Node.move σ)))
      = (foldFrom waiting operand rest).move σ := by
  induction rest generalizing waiting operand with
  | nil => exact applyAll_move waiting operand
  | cons entry rest ih =>
    obtain ⟨op, next⟩ := entry
    rw [List.map_cons]
    simp only [Prod.map, id, foldFrom]
    rw [applyWaiting_move op waiting operand]
    obtain ⟨left, joined⟩ := applyWaiting op waiting operand
    exact ih ((joined, op) :: left) next

theorem accords_mapM {α β : Type} {f : α → Except SyntaxError β} {act : α → α} {act' : β → β}
    (accords : ∀ value, Accords (fun result result' => result' = act' result) (f value)
      (f (act value))) (values : List α) :
    Accords (fun results results' => results' = results.map act') (values.mapM f)
      ((values.map act).mapM f) := by
  induction values with
  | nil => rfl
  | cons value rest ih =>
    rw [List.map_cons, List.mapM_cons, List.mapM_cons]
    refine Accords.bind ((accords value).mono fun result result' same => ?_)
    refine Accords.bind (ih.mono fun results results' sames => ?_)
    show result' :: results' = (result :: results).map act'
    rw [same, sames, List.map_cons]

theorem accords_knownOperator (part : String × Node) :
    Accords (fun result result' => result' = Prod.map id (Node.move σ) result) (knownOperator part)
      (knownOperator (part.map id (Node.move σ))) := by
  obtain ⟨text, operand⟩ := part
  simp only [knownOperator, Prod.map, id]
  cases BinaryOp.ofText? text with
  | none => trivial
  | some op => rfl

instance carries_infixText : infixText.Carries σ id := .trimmed

instance carries_operation : operation.CarriesNode σ := by
  refine .check ?_
  rintro ⟨first, rest⟩
  refine Accords.map ((accords_mapM accords_knownOperator rest).mono fun entries _ same => ?_)
  rw [same]
  exact foldFrom_move [] first entries

/-! ## Primary expressions and calls -/

instance carries_arrayLiteral : arrayLiteral.CarriesNode σ :=
  carries_node (.map fun _ => by simp [Form.move])

instance carries_objectMethod : objectMethod.CarriesNode σ :=
  carries_node (.map₅ fun _ _ _ _ _ => by simp [Form.move, methodFunction_move])

instance carries_keyedProperty : keyedProperty.CarriesNode σ :=
  carries_node (.map₂ fun _ _ => by simp [Form.move])

instance carries_objectLiteral : objectLiteral.CarriesNode σ :=
  carries_node (.map fun _ => by simp [Form.move])

instance carries_primaryBody : primaryBody.CarriesNode σ :=
  .orElse (carries_node (.map fun _ => by rw [Form.move])) inferInstance

instance carries_newTarget : newTarget.CarriesNode σ := by
  refine carries_node (.check ?_)
  rintro ⟨extent, ⟨span, name⟩⟩
  show Accords _ (if name == "target" then _ else _) (if name == "target" then _ else _)
  by_cases target : (name == "target") = true
  · rw [if_pos target, if_pos target]
    show Form.newTarget = Form.move σ .newTarget
    rw [Form.move]
  · rw [if_neg target, if_neg target]
    trivial

instance carries_applyTails {head : Parser Node} {tail : Parser Tail} [head.CarriesNode σ]
    [tail.Carries σ (Tail.move σ)] :
    ((fun head tails => tails.foldl applyTail head) <$> head <*> .many (.located tail)).Carries σ
      (Node.move σ) :=
  .map₂ fun head tails => foldl_applyTail_move head tails

instance carries_constructed : constructed.CarriesNode σ := carries_applyTails

instance carries_constructionBody : constructionBody.CarriesNode σ := by
  refine .orElse inferInstance (carries_node (.map₂ fun callee arguments => ?_))
  cases arguments <;> simp [Form.move]

instance carries_super : (node ((fun _ => .super) <$> keyword "super")).CarriesNode σ :=
  carries_node (.map fun _ => by rw [Form.move])

instance carries_callExpressionBody : callExpressionBody.CarriesNode σ := carries_applyTails

/-! ## Unary operators and conditionals -/

instance carries_updateOperator : updateOperator.Carries σ id := .trimmed

instance carries_unaryOperator : unaryOperator.Carries σ id := .trimmed

instance carries_unaryBody : unaryBody.CarriesNode σ := by
  refine .orElse (carries_node (.map₂ fun operator argument => ?_))
    (.orElse (carries_node (.map₂ fun _ _ => ?_)) (.map ?_))
  · simp only [id]
    split <;> rw [Form.move]
  · rw [Form.move]
    rfl
  · rintro ⟨extent, argument, operator?⟩
    cases operator? with
    | none => rfl
    | some operator => simp [Node.move, Form.move, Extent.move, Span.move]

instance carries_conditional : conditional.CarriesNode σ := by
  refine .map ?_
  rintro ⟨extent, test, branches⟩
  cases branches with
  | none => rfl
  | some branches => simp [Node.move, Form.move, Extent.move, Span.move]

/-! ## Assignments and functions -/

instance carries_arrowParams :
    (params <|> (fun id : Ident => [id.node]) <$> identifier).Carries σ (List.map (Node.move σ)) :=
  .orElse inferInstance (.map fun id => by rw [Ident.node_move]; rfl)

instance carries_arrowFunction : arrowFunction.CarriesNode σ :=
  carries_node (.map₃ fun _ _ _ => by simp [Form.move])

instance carries_yieldExpression : yieldExpression.CarriesNode σ :=
  carries_node (.ahead (.map₂ fun _ _ => by simp [Form.move]))

instance carries_assignmentExpression : assignmentExpression.CarriesNode σ := by
  have parts : ((fun left operator right => (left, operator, right)) <$>
      callExpression <*> lexeme .assign <*> assignment).Carries σ
      (Prod.map (Node.move σ) (Prod.map id (Node.move σ))) :=
    .map₃ fun _ _ _ => rfl
  refine carries_node (parts.check ?_)
  rintro ⟨left, operator, right⟩
  simp only [Prod.map, id]
  cases assignOp? operator with
  | none => trivial
  | some op =>
    show Form.assignment _ _ _ = Form.move σ (.assignment _ _ _)
    rw [Form.move, toPattern_move]
    split <;> rfl

instance carries_assignmentBody : assignmentBody.CarriesNode σ := .choice

instance carries_expressionBody : expressionBody.CarriesNode σ := by
  refine .map ?_
  rintro ⟨extent, expressions⟩
  rcases expressions with _ | ⟨first, _ | ⟨second, rest⟩⟩
  · simp [Node.move, Form.move, Extent.move, Span.move]
  · rfl
  · simp [Node.move, Form.move, Extent.move, Span.move]

end TemplateLint.Grammar
