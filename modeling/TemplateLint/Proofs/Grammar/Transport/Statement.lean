import TemplateLint.Proofs.Grammar.Transport.Part

/-!
# Moving statements

Statements and module declarations are moved as a whole when the offsets of their parts are moved.
The words that are kept as they are written are carried along because their text is the same.
-/

namespace TemplateLint.Grammar

open TemplateLint.Syntax Peg

variable {σ : Nat → Nat}

/-! ## Declarations -/

instance carries_variableKind : variableKind.Carries σ id := .trimmed

instance carries_variableDeclarator : variableDeclarator.CarriesNode σ :=
  carries_node (.map₂ fun _ _ => by simp [Form.move])

instance carries_variableDeclaration : variableDeclaration.Carries σ (Form.move σ) :=
  .map₂ fun _ _ => by simp [Form.move]

instance carries_variableStatement : variableStatement.CarriesNode σ := carries_node .before

instance carries_someIdentifier :
    (some <$> identifier : Parser (Option Ident)).Carries σ (Option.map (Ident.move σ)) :=
  .map fun _ => rfl

instance carries_functionDeclaration : functionDeclaration.CarriesNode σ := carries_functionOf _

instance carries_classDeclaration : classDeclaration.CarriesNode σ := carries_classOf _

/-! ## Modules -/

instance carries_importSpecifier : importSpecifier.CarriesNode σ := by
  refine carries_node (.map₂ fun imported alias? => ?_)
  cases alias? <;> simp [Form.move]

instance carries_importNamespace : importNamespace.Carries σ (List.map (Node.move σ)) := by
  have specifier : (node (.importNamespace <$> (symbol "*" *> keyword "as" *> identifier))).CarriesNode
      σ := carries_node (.map fun _ => by rw [Form.move])
  exact .map fun _ => rfl

instance carries_importNamed : importNamed.Carries σ (List.map (Node.move σ)) := carries_braced

instance carries_importDefault : importDefault.Carries σ (List.map (Node.move σ)) := by
  refine .map₂ fun id more => ?_
  cases more <;> simp [Node.move, Form.move]

instance carries_importDeclaration : importDeclaration.CarriesNode σ := by
  have bare : (([], ·) <$> stringLiteral : Parser (List Node × Node)).Carries σ
      (Prod.map (List.map (Node.move σ)) (Node.move σ)) := .map fun _ => rfl
  refine carries_node (.map ?_)
  rintro ⟨specifiers, source⟩
  show Form.importDeclaration _ _ = Form.move σ (.importDeclaration specifiers source)
  simp [Form.move]

instance carries_exportSpecifier : exportSpecifier.CarriesNode σ := by
  refine carries_node (.map₂ fun binding alias? => ?_)
  cases alias? <;> simp [Form.move]

instance carries_exportDefault : exportDefault.Carries σ (Form.move σ) := .map fun _ => by
  rw [Form.move]

instance carries_exportAll : exportAll.Carries σ (Form.move σ) := .map fun _ => by rw [Form.move]

instance carries_exportNamed : exportNamed.Carries σ (Form.move σ) :=
  .ahead (.map₂ fun _ _ => by simp [Form.move])

instance carries_exportedDeclaration : exportedDeclaration.Carries σ (Form.move σ) :=
  .map fun _ => by simp [Form.move]

theorem decorateClass_move (decorators : List Node) (node : Node) :
    decorateClass (decorators.map (Node.move σ)) (node.move σ)
      = (decorateClass decorators node).map (Node.move σ) := by
  obtain ⟨span, form⟩ := node
  rw [Node.move]
  cases form with
  | classDefinition role own id superClass body =>
    simp [Form.move, decorateClass, Node.move]
  | _ => rw [Form.move]; rfl

theorem map_decorateClass_move {wrap wrap' : Node → Form}
    (commutes : ∀ node, wrap' (node.move σ) = (wrap node).move σ) (decorators : List Node)
    (declaration : Node) :
    (decorateClass (decorators.map (Node.move σ)) (declaration.move σ)).map wrap'
      = ((decorateClass decorators declaration).map wrap).map (Form.move σ) := by
  rw [decorateClass_move, Option.map_map, Option.map_map]
  congr 1
  funext node
  exact commutes node

theorem decorateExport_move (decorators : List Node) (form : Form) :
    decorateExport (decorators.map (Node.move σ)) (form.move σ)
      = (decorateExport decorators form).map (Form.move σ) := by
  cases decorators with
  | nil => rfl
  | cons decorator rest =>
    cases form with
    | exportNamed declaration specifiers source =>
      rw [Form.move]
      cases declaration with
      | none => rw [move?]; rfl
      | some declaration =>
        rw [move?]
        refine map_decorateClass_move ?_ (decorator :: rest) declaration
        intro node
        rw [Form.move, move?]
    | exportDefault declaration =>
      rw [Form.move]
      refine map_decorateClass_move ?_ (decorator :: rest) declaration
      intro node
      rw [Form.move]
    | _ => rw [Form.move]; rfl

instance carries_exportDeclaration : exportDeclaration.CarriesNode σ := by
  refine carries_node (.check ?_)
  rintro ⟨extent, decorators, form⟩
  simp only [Prod.map, decorateExport_move]
  cases decorateExport decorators form with
  | none => trivial
  | some decorated => exact rfl

/-! ## Control flow -/

instance carries_test : test.CarriesNode σ := carries_parenthesized

instance carries_ifStatement : ifStatement.CarriesNode σ :=
  carries_node (.map₃ fun _ _ _ => by simp [Form.move])

instance carries_whileStatement : whileStatement.CarriesNode σ :=
  carries_node (.map₂ fun _ _ => by rw [Form.move])

instance carries_doWhileStatement : doWhileStatement.CarriesNode σ :=
  carries_node (.ahead (.map₂ fun _ _ => by rw [Form.move]))

instance carries_loopDeclaration : loopDeclaration.CarriesNode σ := by
  refine carries_node (.map₂ fun kind target => ?_)
  obtain ⟨span, form⟩ := target
  simp [Form.move, Node.move, Node.span]

instance carries_forEachStatement : forEachStatement.CarriesNode σ := by
  refine carries_node (.map₄ fun left operator right body => ?_)
  simp only [id]
  split <;> rw [Form.move]

instance carries_forStatement : forStatement.CarriesNode σ := by
  have init : (node variableDeclaration).CarriesNode σ := carries_node inferInstance
  exact carries_node (.map₄ fun _ _ _ _ => by simp [Form.move])

instance carries_switchCase : switchCase.CarriesNode σ := by
  have value : (some <$> (keyword "case" *> expression <* symbol ":") : Parser (Option Node)).Carries
      σ (Option.map (Node.move σ)) := .map fun _ => rfl
  have default : ((fun _ => none) <$> (keyword "default" *> symbol ":") :
      Parser (Option Node)).Carries σ (Option.map (Node.move σ)) := .map fun _ => rfl
  exact carries_node (.map₂ fun _ _ => by simp [Form.move])

instance carries_switchStatement : switchStatement.CarriesNode σ :=
  carries_node (.map₂ fun _ _ => by simp [Form.move])

instance carries_catchClause : catchClause.CarriesNode σ :=
  carries_node (.map₂ fun _ _ => by simp [Form.move])

instance carries_tryStatement : tryStatement.CarriesNode σ :=
  carries_node (.map₃ fun _ _ _ => by simp [Form.move])

instance carries_returnStatement : returnStatement.CarriesNode σ :=
  carries_node (.map fun _ => by simp [Form.move])

instance carries_throwStatement : throwStatement.CarriesNode σ :=
  carries_node (.map fun _ => by rw [Form.move])

theorem carries_jump (word : String) (form : Option Ident → Form)
    (moves : ∀ label, form (label.map (Ident.move σ)) = (form label).move σ) :
    (jump word form).CarriesNode σ :=
  carries_node (.map moves)

instance carries_labeledStatement : labeledStatement.CarriesNode σ :=
  carries_node (.map₂ fun _ _ => by rw [Form.move])

instance carries_statementBody : statementBody.CarriesNode σ := by
  have empty : (node ((fun _ => .emptyStatement) <$> symbol ";")).CarriesNode σ :=
    carries_node (.map fun _ => by rw [Form.move])
  have expression : (node (.expressionStatement <$> expression <* semicolon)).CarriesNode σ :=
    carries_node (.ahead (.map fun _ => by rw [Form.move]))
  have leave : (jump "break" .breakStatement).CarriesNode σ :=
    carries_jump _ _ fun _ => by rw [Form.move]
  have again : (jump "continue" .continueStatement).CarriesNode σ :=
    carries_jump _ _ fun _ => by rw [Form.move]
  exact .choice

end TemplateLint.Grammar
