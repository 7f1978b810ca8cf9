import TemplateLint.Proofs.Grammar.Folding
import TemplateLint.Proofs.Grammar.Progress
import TemplateLint.Proofs.Grammar.Shape

/-!
# Parsed programs are shaped and tidy

Every rule of the grammar reads what `shapes` says of it (`ensures_body`), so **the tree of every
text that can be read is shaped and tidy** (`operand_of_parse`, `tidy_of_parse`).
-/

namespace TemplateLint.Grammar

open TemplateLint.Syntax Peg

/-! ## Markup -/

theorem isPlainPart_of_takes {text : String} (taken : Terminal.tagPart.Takes text) (span : Span) :
    TagName.IsPlainPart ⟨span, text⟩ := by
  obtain ⟨source, width, scanned, rfl⟩ := taken
  have plain : ∀ {c}, (isNamePart c || c == '-') = true → TagName.isSeparator c = false := by
    intro c part
    rw [← Bool.not_eq_true]
    intro separates
    rcases Bool.or_eq_true_iff.1 separates with colon | dot
    · rw [beq_iff_eq.1 colon] at part
      revert part
      decide
    · rw [beq_iff_eq.1 dot] at part
      revert part
      decide
  cases source with
  | nil => cases scanned
  | cons first rest =>
    rw [Terminal.scan] at scanned
    split at scanned
    · rename_i starts
      cases scanned
      intro c member
      rw [String.toList_ofList, Nat.add_comm, List.take_succ_cons,
        ← List.prefix_iff_eq_take.1 (List.takeWhile_prefix _), List.mem_cons] at member
      rcases member with rfl | later
      · exact plain (by rw [isNamePart, starts, Bool.true_or, Bool.true_or])
      · have part := List.mem_takeWhile_imp later
        exact plain part
    · cases scanned

theorem plain_tagPart {rules : Category → Node → Prop} :
    tagPart.Ensures rules TagName.IsPlainPart := by
  exact fun text taken extent => isPlainPart_of_takes taken _

theorem isPlain_foldl_member {parts : List Ident} (plain : ∀ part ∈ parts, TagName.IsPlainPart part)
    {object : TagName} (first : object.IsPlain) : (parts.foldl .member object).IsPlain := by
  induction parts generalizing object with
  | nil => exact first
  | cons part rest ih =>
    exact ih (fun other later => plain other (.tail _ later)) ⟨first, plain part (.head _)⟩

theorem plain_elementName {rules : Category → Node → Prop} :
    elementName.Ensures rules TagName.IsPlain := by
  refine ⟨?_, ?_, ?_⟩
  · exact (Ensures.map₂ plain_tagPart.before plain_tagPart
      fun _ space _ name => ⟨space, name⟩).before
  · refine (Ensures.map₃ plain_tagPart plain_tagPart.after (ensures_many plain_tagPart.after)
      ?_).before
    intro object plain first plainFirst rest plainRest
    exact isPlain_foldl_member (List.forall_mem_cons.2 ⟨plainFirst, plainRest⟩) plain
  · have simple : ∀ id, TagName.IsPlainPart id → (TagName.simple id).IsPlain := fun _ plain => plain
    exact (plain_tagPart.start simple).before

theorem wholes_markup : markup.Wholes :=
  Ensures.before ⟨fun _ whole => whole, fun _ whole => whole⟩

theorem whole_jsxContainer {expression : Node} (whole : expression.Whole) :
    (Form.jsxContainer expression).Whole :=
  Form.whole_of_parts trivial trivial rfl (by simp [Form.fields, whole.2])

theorem wholes_attributeValue : attributeValue.Wholes := by
  have container : container.Wholes := by
    refine wholes_node ?_
    simp only [ensures_map, ensures_braced]
    exact wholes_expression.mono fun _ => whole_jsxContainer
  refine Ensures.after ⟨?_, container, wholes_markup⟩
  exact wholes_node (Ensures.anything.start fun _ _ => whole_literal _ _)

theorem wholes_attribute : attribute_.Wholes := by
  refine ⟨wholes_node ?_, wholes_node ?_⟩
  · simp only [ensures_map, ensures_braced]
    exact wholes_assignment.after.mono fun argument whole =>
      Form.whole_of_parts trivial trivial rfl (by simp [Form.fields, whole.2])
  · refine .map₂ .anything (ensures_optional_forall wholes_attributeValue.sounds) ?_
    intro name _ value sound
    refine Form.whole_of_parts trivial trivial rfl ?_
    simp only [Form.fields, Fields.all_append, Fields.all_one, Fields.all_treeOf?,
      TagName.node_tree, Node.node_tree]
    exact ⟨name.sound_node, sound⟩

theorem ensures_tagHead :
    tagHead.Ensures shapes fun head => head.1.IsPlain ∧ ∀ node ∈ head.2, node.Sound :=
  .map₂ plain_elementName.after (ensures_many wholes_attribute.sounds)
    fun _ plain _ sound => ⟨plain, sound⟩

theorem sound_jsxOpening {attributes : List Node} (sound : ∀ node ∈ attributes, node.Sound)
    (name : TagName) (selfClosing : Bool) :
    (Form.jsxOpening name attributes selfClosing).Sound :=
  Form.sound_of_parts trivial trivial rfl
    (by simpa [Form.fields, name.sound_node] using sound)

theorem whole_jsxElement {opening : Node} {children : List Node} {closing : Option Node}
    (head : opening.Sound) (inner : ∀ node ∈ children, node.Sound)
    (last : ∀ node ∈ closing, node.Sound ∧ node.isClosingTag = true)
    (closed : ∀ node ∈ closing, opening.IsClosedBy node) :
    (Form.jsxElement opening children closing).Whole := by
  refine Form.whole_of_parts (fun node member => (last node member).2) closed rfl ?_
  simp only [Form.fields, Fields.all_append, Fields.all_one, Fields.all_treesOf, Fields.all_treeOf?,
    Node.node_tree]
  exact ⟨⟨head, inner⟩, fun node member => (last node member).1⟩

theorem wholes_childContainer : childContainer.Wholes := by
  have spread : ∀ {expression : Node}, expression.Whole →
      (Form.jsxSpreadChild expression).Whole := fun whole =>
    Form.whole_of_parts trivial trivial rfl (by simp [Form.fields, whole.2])
  have blank : ∀ span : Span, Node.Whole ⟨span, .jsxEmpty⟩ :=
    Form.whole_of_parts trivial trivial rfl (by simp [Form.fields])
  have body : childBody.Ensures shapes fun body => ∀ expression : Node,
      body = .inl expression ∨ body = .inr expression → expression.Whole := by
    exact ⟨wholes_expression.after.start fun _ whole => by simpa using whole,
      wholes_expression.start fun _ whole => by simpa using whole⟩
  refine wholes_node (Ensures.map₂ .anything (ensures_optional_forall body) ?_).before
  intro blank? _ body? whole
  split
  next expression => exact spread (whole _ rfl expression (.inl rfl))
  next expression => exact whole_jsxContainer (whole _ rfl expression (.inr rfl))
  next => exact whole_jsxContainer (blank _)

theorem wholes_child : child.Wholes :=
  ⟨wholes_node (Ensures.anything.start fun _ _ =>
      Form.whole_of_parts trivial trivial rfl (by simp [Form.fields])),
    wholes_childContainer, fun _ whole => whole, fun _ whole => whole⟩

theorem ensures_openingTag : openingTag.Ensures shapes fun opening => ∃ name span attributes,
    opening = (name, ⟨span, .jsxOpening name attributes false⟩)
      ∧ name.IsPlain ∧ opening.2.Sound := by
  exact ensures_tagHead.before.mono fun head ⟨plain, sound⟩ extent =>
    ⟨_, _, _, rfl, plain, sound_jsxOpening sound _ _ _⟩

theorem ensures_closingTag : closingTag.Ensures shapes fun closing => ∃ name span,
    closing = (name, ⟨span, .jsxClosing name⟩) ∧ name.IsPlain ∧ closing.2.Sound := by
  refine plain_elementName.after.before.mono fun name plain extent => ⟨_, _, rfl, plain, ?_⟩
  have sound : (Form.jsxClosing name).Sound :=
    Form.sound_of_parts trivial trivial rfl (by simp [Form.fields, name.sound_node])
  exact sound _

theorem wholes_jsxElementBody : jsxElementBody.Wholes := by
  constructor
  · refine ensures_tagHead.before.mono fun head ⟨_, sound⟩ extent => ?_
    exact whole_jsxElement (sound_jsxOpening sound _ _ _) (by simp) (by simp) (by simp) _
  · refine wholes_node ?_
    simp only [ensures_check]
    refine .map₃ ensures_openingTag (ensures_many wholes_child.sounds) ensures_closingTag ?_
    rintro _ ⟨name, span, attributes, rfl, plain, head⟩ children inner
      _ ⟨last, span', rfl, plain', tail⟩ form accepted
    split at accepted
    · rename_i same
      obtain rfl := Except.ok.inj accepted
      have alike : name.Alike last := TagName.alike_of_render_eq plain plain' (beq_iff_eq.1 same)
      exact whole_jsxElement head inner (by simpa using ⟨tail, rfl⟩)
        (by rintro _ ⟨⟩; exact alike)
    · cases accepted

theorem wholes_jsxFragmentBody : jsxFragmentBody.Wholes := by
  refine wholes_node ((ensures_many wholes_child.sounds).after.before.before.start ?_)
  intro children sound
  exact Form.whole_of_parts trivial trivial rfl (by simpa [Form.fields] using sound)

/-! ## Operators -/

section Folding

variable {holds : Node → Prop}
  (joins : ∀ {left right}, holds left → holds right → ∀ op, holds (joinOperands left op right))

include joins

theorem holds_node (grouping : Grouping) (each : ∀ node ∈ grouping.operands, holds node) :
    holds grouping.node := by
  induction grouping with
  | operand node => exact each node (.head _)
  | apply left op right leftIH rightIH =>
    rw [Grouping.operands_apply, List.forall_mem_append] at each
    exact joins (leftIH each.1) (rightIH each.2) op

theorem ensures_operation {rules : Category → Node → Prop} (operands : unary.Ensures rules holds) :
    operation.Ensures rules holds := by
  have part : (Prod.mk <$> infixText <*> unary).Ensures rules fun part => holds part.2 :=
    .map₂ .anything operands fun _ _ _ holds => holds
  refine .map₂ operands (ensures_many part) fun first here rest others node accepted => ?_
  obtain ⟨entries, known, rfl⟩ := Match.eq_ok_of_map_eq_ok accepted
  obtain ⟨grouping, same, folded⟩ := Grouping.exists_node_eq_foldOperators first entries
  rw [← folded]
  refine holds_node joins grouping ?_
  rw [same, map_snd_knownOperators known]
  simpa using ⟨here, fun node op read => others (op, node) read⟩

end Folding

/-! ## Expressions -/

theorem wholes_objectLiteral : objectLiteral.Wholes := by
  have keeps : ∀ {key : Node × Bool} {value : Node}, KeyShaped key → value.Whole →
      ∀ (span : Span) style, Node.Sound ⟨span, .property key.1 value style key.2⟩
        ∧ Node.isObjectMember ⟨span, .property key.1 value style key.2⟩ = true :=
    fun key value span style =>
      ⟨sound_property key.1 key.2 value.2 style span, by simp [Node.isObjectMember, value.1]⟩
  have method : objectMethod.Ensures shapes fun node =>
      node.Sound ∧ node.isObjectMember = true := by
    refine fits_block.next (targets_locatedParams.next
      (.map₃ .anything .anything ensures_propertyKey ?_))
    intro accessor _ generator _ key first params second body fit extent
    exact keeps first (fitsRole_function second fit _ _ _ _ _).whole _ _
  have keyed : keyedProperty.Ensures shapes fun node =>
      node.Sound ∧ node.isObjectMember = true :=
    .map₂ ensures_propertyKey.before wholes_assignment fun _ key _ value _ => keeps key value _ _
  have spread : (node (.spreadElement <$> (symbol "..." *> assignment))).Ensures shapes fun node =>
      node.Sound ∧ node.isObjectMember = true :=
    wholes_assignment.after.start fun _ whole _ => ⟨(whole_spreadElement whole _).2, rfl⟩
  have member : (node (.spreadElement <$> (symbol "..." *> assignment)) <|> objectMethod
      <|> keyedProperty <|> shorthandProperty).Ensures shapes fun node =>
        node.Sound ∧ node.isObjectMember = true :=
    ⟨spread, method, keyed,
      targets_shorthandProperty.mono fun _ member => ⟨member.1.sound, member.2⟩⟩
  refine wholes_node ?_
  simp only [ensures_map, ensures_braced]
  refine (ensures_commaList member).mono fun properties members => ?_
  refine Form.whole_of_parts trivial (fun node listed => (members node listed).2) rfl ?_
  simp only [Form.fields, Fields.all_treesOf, Node.node_tree]
  exact fun node listed => (members node listed).1

theorem wholes_arrayLiteral : arrayLiteral.Wholes := by
  refine wholes_node ((ensures_sparseList wholes_spreadOrAssignment).start ?_)
  intro elements wholes
  refine Form.whole_of_parts trivial (fun node listed => (wholes node listed).1) rfl ?_
  simp only [Form.fields, Fields.all_treesOf?, Node.node_tree]
  exact fun node listed => (wholes node listed).2

theorem wholes_primaryBody : primaryBody.Wholes := by
  have this : (node ((fun _ => .this) <$> keyword "this")).Wholes :=
    wholes_node (Ensures.anything.start fun _ _ =>
      Form.whole_of_parts trivial trivial rfl (by simp [Form.fields]))
  have inner : (parenthesized expression).Wholes := by
    simpa using wholes_expression
  have pattern : regexLiteral.Wholes :=
    (wholes_literalOf _ _).mono fun _ => And.left
  exact ⟨this, wholes_literal, wholes_templateLiteral, pattern, wholes_markup,
    (fits_functionOf _ _).mono fun _ => FitsRole.whole, (fits_classOf _ _).mono fun _ =>
      FitsRole.whole, wholes_arrayLiteral, wholes_objectLiteral, inner,
    .of_forall Ident.whole_node identifier⟩

theorem wholes_applyTails {head : Parser Node} {tail : Parser Tail}
    (wholes : head.Wholes) (tidies : tail.Ensures shapes Tail.Sound) :
    ((fun head tails => tails.foldl applyTail head) <$> head <*> .many (.located tail)).Ensures
      shapes Node.Whole :=
  .map₂ wholes (ensures_tails tidies) fun _ whole _ sound => whole_applyTails whole sound

theorem wholes_constructionBody : constructionBody.Wholes := by
  have property : newTarget.Wholes := by
    refine wholes_node ?_
    simp only [ensures_check, ensures_located]
    refine .of_forall (fun name extent form accepted => ?_) _
    split at accepted
    · obtain rfl := Except.ok.inj accepted
      exact Form.whole_of_parts trivial trivial rfl (by simp [Form.fields])
    · cases accepted
  have callee : constructed.Wholes :=
    wholes_applyTails ⟨fun _ whole => whole, fun _ whole => whole⟩
      ⟨ensures_dotMember, ensures_computedMember⟩
  refine ⟨property, wholes_node (.map₂ callee.after (ensures_optional_forall ensures_arguments) ?_)⟩
  intro callee whole arguments sound
  refine Form.whole_of_parts trivial trivial rfl ?_
  simp only [Form.fields, Fields.all_append, Fields.all_one, Fields.all_treesOf, Node.node_tree]
  cases arguments with
  | none => exact ⟨whole.2, by simp⟩
  | some arguments => exact ⟨whole.2, sound arguments rfl⟩

theorem wholes_callExpressionBody : callExpressionBody.Wholes := by
  have super : (node ((fun _ => .super) <$> keyword "super")).Wholes :=
    wholes_node (Ensures.anything.start fun _ _ =>
      Form.whole_of_parts trivial trivial rfl (by simp [Form.fields]))
  exact wholes_applyTails ⟨super, fun _ whole => whole, fun _ whole => whole⟩ ensures_callTail

theorem whole_update {argument : Node} (whole : argument.Whole) (operator : String)
    (leading : Bool) : (Form.update operator argument leading).Whole :=
  Form.whole_of_parts trivial trivial rfl (by simp [Form.fields, whole.2])

theorem wholes_unaryBody : unaryBody.Wholes := by
  have operand : unary.Wholes := fun _ whole => whole
  refine ⟨wholes_node (.map₂ .anything operand fun operator _ argument whole => ?_),
    wholes_node (.map₂ .anything operand fun operator _ argument whole => ?_), ?_⟩
  · split
    · exact Form.whole_of_parts trivial trivial rfl (by simp [Form.fields, whole.2])
    · exact Form.whole_of_parts trivial trivial rfl (by simp [Form.fields, whole.2])
  · exact whole_update whole operator true
  · exact wholes_callExpression.mono fun argument whole => ⟨fun _ => whole,
      .of_forall (fun operator _ => whole_update whole operator false _) _⟩

theorem whole_joinOperands {left right : Node} (first : left.Whole) (second : right.Whole)
    (op : BinaryOp) : (joinOperands left op right).Whole := by
  have whole : (Form.binary left op right).Whole :=
    Form.whole_of_parts trivial trivial rfl (by simp [Form.fields, first.2, second.2])
  exact whole _

theorem wholes_conditional : conditional.Wholes := by
  have tested : operation.Wholes :=
    ensures_operation whole_joinOperands fun _ whole => whole
  simp only [conditional, ensures_map, ensures_located, ensures_seq, ensures_seqLeft,
    ensures_seqRight, ensures_lexeme, ensures_symbol, ensures_optional]
  refine tested.mono fun test whole => ⟨fun _ => whole, fun _ _ => ?_⟩
  refine wholes_assignment.mono fun consequent first => ?_
  refine wholes_assignment.mono fun alternate second extent => ?_
  have whole : (Form.conditional test consequent alternate).Whole :=
    Form.whole_of_parts trivial trivial rfl (by simp [Form.fields, whole.2, first.2, second.2])
  exact whole _

theorem wholes_arrowFunction : arrowFunction.Wholes := by
  have params : (params <|> (fun id : Ident => [id.node]) <$> identifier).Ensures shapes
      fun params => ∀ param ∈ params, param.Target :=
    ⟨targets_params,
      .of_forall (fun id : Ident => List.forall_mem_singleton.2 id.target_node) identifier⟩
  have body : (block <|> assignment).Fits := ⟨fits_block, wholes_assignment.fits⟩
  refine .map₃ .anything params body.after ?_
  intro isAsync _ params targets body fit extent
  have fit : (Form.arrowFunction params body isAsync).Fit := by
    refine Form.fit_of_held (fun param member => (targets param member).1.2) trivial rfl ?_
    simp only [Form.fields, Fields.all_append, Fields.all_treesOf, Fields.all_one, Fields.all_flag,
      Node.node_tree, and_true]
    exact ⟨fun param member => (targets param member).sound.held _ _, fit.held rfl⟩
  exact (fit _).whole rfl

theorem wholes_yieldExpression : yieldExpression.Wholes := by
  refine wholes_node (Ensures.map₂ .anything
    (ensures_optional_forall wholes_assignment.sounds.after) ?_).before
  intro delegate _ argument sound
  refine Form.whole_of_parts trivial trivial rfl ?_
  simpa [Form.fields] using sound

theorem wholes_assignmentExpression : assignmentExpression.Wholes := by
  refine wholes_node ?_
  refine .map₃ wholes_callExpression .anything wholes_assignment ?_
  intro left whole text _ right value form accepted
  obtain ⟨op, _, rfl⟩ := Match.eq_ok_of_map_eq_ok accepted
  cases op with
  | plain =>
    have target := sound_toPattern left whole
    exact Form.whole_of_parts trivial target.2 rfl (by simp [Form.fields, target.1, value.2])
  | compound op =>
    exact Form.whole_of_parts trivial whole.1 rfl (by simp [Form.fields, whole.2, value.2])

theorem wholes_assignmentBody : assignmentBody.Wholes :=
  ⟨wholes_arrowFunction, wholes_yieldExpression, wholes_assignmentExpression, wholes_conditional⟩

theorem wholes_expressionBody : expressionBody.Wholes := by
  simp only [expressionBody, ensures_map, ensures_located]
  refine (ensures_separated wholes_assignment).mono fun expressions wholes extent => ?_
  split
  next expression => exact wholes expression (.head _)
  next =>
    have whole : (Form.sequence expressions).Whole := Form.whole_of_parts trivial trivial rfl (by
      simpa [Form.fields] using fun node member => (wholes node member).2)
    exact whole _

/-! ## Declarations and modules -/

theorem sound_variableDeclarator {target : Node} {init : Option Node} (first : target.Target)
    (second : ∀ node ∈ init, node.Sound) : (Form.variableDeclarator target init).Sound :=
  Form.sound_of_parts first.1.2 trivial rfl
    (by simpa [Form.fields, first.sound] using second)

theorem stands_variableDeclaration {declarations : List Node}
    (each : ∀ node ∈ declarations, node.Sound ∧ node.isDeclarator = true) (kind : String) :
    (Form.variableDeclaration declarations kind).Stands := by
  intro span
  obtain ⟨shaped, tidy⟩ := Node.shaped_and_tidy (.variableDeclaration declarations kind)
    (fun node member => (each node member).2) trivial
    (by simpa [Form.fields] using fun node member => (each node member).1.held _ _) span
  exact ⟨rfl, ⟨shaped, rfl⟩, tidy⟩

theorem stands_variableDeclarationForm : variableDeclaration.Ensures shapes Form.Stands := by
  have declarator : variableDeclarator.Ensures shapes fun node =>
      node.Sound ∧ node.isDeclarator = true :=
    .map₂ targets_bindingTarget (ensures_optional_forall wholes_initializer.sounds)
      fun _ first _ second _ => ⟨sound_variableDeclarator first second _, rfl⟩
  exact .map₂ .anything (ensures_separated declarator) fun kind _ _ each =>
    stands_variableDeclaration each kind

theorem stands_node {form : Parser Form} (stands : form.Ensures shapes Form.Stands) :
    (node form).Ensures shapes Node.Stands :=
  stands.mono fun _ stands _ => stands _

theorem stands_variableStatement : variableStatement.Ensures shapes Node.Stands :=
  stands_node stands_variableDeclarationForm.before

def ImportSpecifiers (specifiers : List Node) : Prop :=
  ∀ node ∈ specifiers, node.Sound ∧ node.isImportSpecifier = true

theorem fits_importDeclaration : importDeclaration.Fits := by
  have space : importNamespace.Ensures shapes ImportSpecifiers := by
    simp only [importNamespace, ensures_map, ensures_node]
    refine .of_forall (fun id extent => List.forall_mem_singleton.2 ⟨?_, rfl⟩) _
    have sound : (Form.importNamespace id).Sound :=
      Form.sound_of_parts trivial trivial rfl (by simp [Form.fields, id.sound_node])
    exact sound _
  have named : importNamed.Ensures shapes ImportSpecifiers := by
    simp only [importNamed, ensures_braced]
    refine ensures_commaList (.map₂ .anything .anything fun imported _ alias? _ extent => ?_)
    have sound : (Form.importSpecifier imported (alias?.getD imported)).Sound :=
      Form.sound_of_parts trivial trivial rfl (by simp [Form.fields, Ident.sound_node])
    exact ⟨sound _, rfl⟩
  have more : (importNamespace <|> importNamed).Ensures shapes ImportSpecifiers := ⟨space, named⟩
  have default : importDefault.Ensures shapes ImportSpecifiers := by
    refine .map₂ .anything (ensures_optional_forall more.after) fun id _ more each => ?_
    have sound : (Form.importDefault id).Sound :=
      Form.sound_of_parts trivial trivial rfl (by simp [Form.fields, id.sound_node])
    refine List.forall_mem_cons.2 ⟨⟨sound _, rfl⟩, ?_⟩
    cases more with
    | none => simp
    | some nodes => exact each nodes rfl
  have specifiers : (importNamespace <|> importNamed <|> importDefault).Ensures shapes
      ImportSpecifiers := ⟨space, named, default⟩
  have clause : (Prod.mk <$> (importNamespace <|> importNamed <|> importDefault)
      <*> (keyword "from" *> stringLiteral)).Ensures shapes fun parts =>
        ImportSpecifiers parts.1 ∧ parts.2.Whole ∧ parts.2.isLiteral = true :=
    .map₂ specifiers wholes_stringLiteral.after fun _ first _ second => ⟨first, second⟩
  have bare : (([], ·) <$> stringLiteral : Parser (List Node × Node)).Ensures shapes fun parts =>
      ImportSpecifiers parts.1 ∧ parts.2.Whole ∧ parts.2.isLiteral = true :=
    wholes_stringLiteral.start fun _ literal => ⟨by simp [ImportSpecifiers], literal⟩
  have parts : (Prod.mk <$> (importNamespace <|> importNamed <|> importDefault)
      <*> (keyword "from" *> stringLiteral) <|> ([], ·) <$> stringLiteral).Ensures shapes
        fun parts => ImportSpecifiers parts.1 ∧ parts.2.Whole ∧ parts.2.isLiteral = true :=
    ⟨clause, bare⟩
  refine fits_node (parts.after.before.start fun parts holds => ?_)
  obtain ⟨specifiers, source⟩ := parts
  obtain ⟨each, whole, literal⟩ := holds
  refine Form.fit_of_parts ⟨fun node member => (each node member).2, literal⟩ trivial rfl ?_
  simpa [Form.fields, whole.2] using fun node member => (each node member).1

def ExportSpecifiers (specifiers : List Node) : Prop := ∀ node ∈ specifiers,
  node.Shaped ∧ node.Tidy ∧ node.isDeclaration = false ∧ node.isExportSpecifier = true

theorem fit_exportNamed {declaration source : Option Node} {specifiers : List Node}
    (declared : ∀ node ∈ declaration, node.Stands) (each : ExportSpecifiers specifiers)
    (literal : ∀ node ∈ source, node.Sound ∧ node.isLiteral = true)
    (apart : declaration.isSome = true → specifiers = []) :
    (Form.exportNamed declaration specifiers source).Fit := by
  refine Form.fit_of_held ⟨fun node member => (each node member).2.2.2,
    fun node member => (literal node member).2, apart⟩ trivial rfl ?_
  simp only [Form.fields, Fields.all_append, Fields.all_treeOf?, Fields.all_treesOf, Node.node_tree]
  refine ⟨⟨fun node member => (declared node member).held rfl, fun node member => ?_⟩,
    fun node member => (literal node member).1.held _ _⟩
  obtain ⟨shaped, tidy, noDeclaration, _⟩ := each node member
  exact ⟨⟨⟨fun declares => by simp [noDeclaration] at declares, fun _ => rfl⟩, shaped⟩,
    fun _ => rfl, tidy⟩

theorem fit_exportDefault {declaration : Node} (fit : declaration.Fit) :
    (Form.exportDefault declaration).Fit :=
  Form.fit_of_held trivial trivial rfl (by simpa [Form.fields] using fit.held rfl)

theorem fit_decorateClass {decorators : List Node} (before : ∀ node ∈ decorators, node.Sound)
    {declaration decorated : Node} (shaped : declaration.Shaped) (tidy : declaration.Tidy)
    (found : decorateClass decorators declaration = some decorated) : decorated.Fit := by
  obtain ⟨span, form⟩ := declaration
  cases form with
  | classDefinition role own id superClass body =>
    obtain rfl := Option.some.inj found
    have parts := Node.holds_parts shaped tidy
    simp only [Form.fields, Fields.all_append, Fields.all_treesOf, Node.node_tree] at parts
    obtain ⟨⟨⟨first, name⟩, second⟩, last⟩ := parts
    have fit : (Form.classDefinition role (decorators ++ own) id superClass body).Fit := by
      refine Form.fit_of_held trivial trivial rfl ?_
      simp only [Form.fields, Fields.all_append, Fields.all_treesOf, Node.node_tree,
        List.forall_mem_append]
      -- What a class may hold depends on its role and not on its decorators.
      cases role <;> exact ⟨⟨⟨⟨fun node member => (before node member).held _ _, first⟩, name⟩,
        second⟩, last⟩
    exact fit span
  | _ => cases found

theorem fit_decorateExport {decorators : List Node} (before : ∀ node ∈ decorators, node.Sound)
    {form decorated : Form} (fit : form.Fit)
    (found : decorateExport decorators form = some decorated) : decorated.Fit := by
  unfold decorateExport at found
  split at found
  · exact Option.some.inj found ▸ fit
  · have built := ((Node.shaped_iff ⟨0, 0⟩ form).1 (fit _).2.1.1).1
    have parts := Node.holds_parts (fit ⟨0, 0⟩).2.1.1 (fit ⟨0, 0⟩).2.2
    split at found
    next declaration specifiers source =>
      obtain ⟨classNode, put, rfl⟩ := Option.map_eq_some_iff.1 found
      obtain rfl : specifiers = [] := built.2.2 rfl
      simp only [Form.fields, Fields.all_append, Fields.all_treeOf?, Node.node_tree,
        Option.mem_some_iff, forall_eq'] at parts
      obtain ⟨⟨⟨declared, _, tidy⟩, none⟩, literal⟩ := parts
      refine Form.fit_of_held ⟨by simp, built.2.1, by simp⟩ trivial rfl ?_
      simp only [Form.fields, Fields.all_append, Fields.all_treeOf?, Node.node_tree,
        Option.mem_some_iff, forall_eq']
      exact ⟨⟨(fit_decorateClass before declared.2 tidy put).held rfl, none⟩, literal⟩
    next declaration =>
      obtain ⟨classNode, put, rfl⟩ := Option.map_eq_some_iff.1 found
      simp only [Form.fields, Fields.all_one, Node.node_tree] at parts
      exact fit_exportDefault (fit_decorateClass before parts.1.2 parts.2.2 put)
    next => cases found

theorem fits_exportDeclaration : exportDeclaration.Fits := by
  have source := wholes_stringLiteral.mono fun _ literal => And.intro literal.1.2 literal.2
  have specifier : exportSpecifier.Ensures shapes fun node => node.Shaped ∧ node.Tidy
      ∧ node.isDeclaration = false ∧ node.isExportSpecifier = true := by
    refine .map₂ .anything .anything fun id _ alias? _ extent => ?_
    obtain ⟨shaped, tidy⟩ := Node.shaped_and_tidy (.exportSpecifier id (alias?.getD id))
      trivial trivial (by simp [Form.fields, Node.Sound.held, Ident.sound_node]) _
    exact ⟨shaped, tidy, rfl, rfl⟩
  have default : exportDefault.Ensures shapes Form.Fit := by
    refine Ensures.start (Ensures.after ?_) fun _ => fit_exportDefault
    exact ⟨(fits_classOf _ _).mono fun _ => And.left, (fits_functionOf _ _).mono fun _ => And.left,
      wholes_assignment.fits.before⟩
  have all : exportAll.Ensures shapes Form.Fit :=
    source.after.before.start fun origin literal =>
      Form.fit_of_parts literal.2 trivial rfl (by simp [Form.fields, literal.1])
  have named : exportNamed.Ensures shapes Form.Fit := by
    refine Ensures.before ?_
    simp only [ensures_seq, ensures_map, ensures_braced]
    refine (ensures_commaList specifier).mono fun specifiers each => ?_
    exact (ensures_optional_forall source.after).mono fun source literal =>
      fit_exportNamed (by simp) each literal (by simp)
  have declared : (variableStatement <|> functionDeclaration <|> classDeclaration).Ensures shapes
      Node.Stands :=
    ⟨stands_variableStatement, (fits_functionOf _ _).mono fun _ fits => fits.1.stands,
      (fits_classOf _ _).mono fun _ fits => fits.1.stands⟩
  have declaration : exportedDeclaration.Ensures shapes Form.Fit :=
    declared.start fun _ stands => fit_exportNamed (by simpa using stands)
      (by simp [ExportSpecifiers]) (by simp) (by simp)
  have exported : (exportDefault <|> exportAll <|> exportNamed <|> exportedDeclaration).Ensures
      shapes Form.Fit := ⟨default, all, named, declaration⟩
  refine fits_node ?_
  simp only [ensures_check, ensures_located]
  refine .map₂ ensures_decorators exported.after fun decorators before form fit => ?_
  intro extent decorated accepted
  split at accepted
  next found =>
    obtain rfl := Except.ok.inj accepted
    exact fit_decorateExport before fit found
  next => cases accepted

/-! ## Control flow -/

theorem wholes_test : test.Wholes := by
  simp only [test, ensures_parenthesized]
  exact wholes_expression

theorem fits_ifStatement : ifStatement.Fits := by
  refine fits_node (.map₃ wholes_test.after stands_statement
    (ensures_optional_forall stands_statement.after) ?_)
  intro test first consequent second alternate last
  refine Form.fit_of_held trivial trivial rfl ?_
  simp only [Form.fields, Fields.all_append, Fields.all_one, Fields.all_treeOf?, Node.node_tree]
  exact ⟨⟨first.2.held _ _, second.held rfl⟩, fun node member => (last node member).held rfl⟩

theorem fits_whileStatement : whileStatement.Fits :=
  fits_node (.map₂ wholes_test.after stands_statement fun _ first _ second =>
    Form.fit_of_held trivial trivial rfl
      (by simpa [Form.fields] using ⟨first.2.held _ _, second.held rfl⟩))

theorem fits_doWhileStatement : doWhileStatement.Fits :=
  fits_node (Ensures.before (.map₂ stands_statement.after wholes_test.after
    fun _ first _ second => Form.fit_of_held trivial trivial rfl
      (by simpa [Form.fields] using ⟨first.held rfl, second.2.held _ _⟩)))

theorem stands_loopHead : (loopDeclaration <|> callExpression).Ensures shapes Node.Stands := by
  refine ⟨stands_node (.map₂ .anything targets_bindingTarget fun kind _ target bound => ?_),
    wholes_callExpression.fits.stands⟩
  refine stands_variableDeclaration (List.forall_mem_singleton.2 ⟨?_, rfl⟩) kind
  exact sound_variableDeclarator bound (by simp) _

theorem fits_forEachStatement : forEachStatement.Fits := by
  refine fits_node (stands_statement.next (.map₃ stands_loopHead.after .anything
    wholes_expression.before ?_))
  intro left head operator _ right whole body last
  split
  all_goals
    refine Form.fit_of_held trivial head.1 rfl ?_
    simp only [Form.fields, Fields.all_append, Fields.all_one, Node.node_tree]
    exact ⟨⟨head.held rfl, whole.2.held _ _⟩, last.held rfl⟩

theorem fits_forStatement : forStatement.Fits := by
  have head : (node variableDeclaration <|> expression).Ensures shapes Node.Stands :=
    ⟨stands_node stands_variableDeclarationForm, wholes_expression.fits.stands⟩
  have sound? := ensures_optional_forall wholes_expression.sounds
  refine fits_node (stands_statement.next (.map₃ (ensures_optional_forall head).after
    sound?.after sound?.after.before ?_))
  intro init first test second update third body last
  refine Form.fit_of_held trivial trivial rfl ?_
  simp only [Form.fields, Fields.all_append, Fields.all_treeOf?, Fields.all_one, Node.node_tree]
  exact ⟨⟨⟨fun node member => (first node member).held rfl,
    fun node member => (second node member).held _ _⟩,
    fun node member => (third node member).held _ _⟩, last.held rfl⟩

theorem fits_switchStatement : switchStatement.Fits := by
  have tested : (some <$> (keyword "case" *> expression <* symbol ":")
      <|> (fun _ => none) <$> (keyword "default" *> symbol ":")).Ensures shapes
        fun test => ∀ node ∈ test, node.Sound :=
    ⟨wholes_expression.sounds.after.before.start fun _ sound => by simpa using sound,
      Ensures.anything.start fun _ _ => by simp⟩
  have case : switchCase.Fits := by
    refine fits_node (.map₂ tested (ensures_many stands_statement) ?_)
    intro test first consequent second
    refine Form.fit_of_held trivial trivial rfl ?_
    simp only [Form.fields, Fields.all_append, Fields.all_treeOf?, Fields.all_treesOf,
      Node.node_tree]
    exact ⟨fun node member => (first node member).held _ _,
      fun node member => (second node member).held rfl⟩
  refine fits_node ?_
  simp only [ensures_seq, ensures_map, ensures_braced]
  refine wholes_test.after.mono fun discriminant whole => ?_
  refine (ensures_many case).mono fun cases fit => Form.fit_of_held trivial trivial rfl ?_
  simp only [Form.fields, Fields.all_append, Fields.all_one, Fields.all_treesOf, Node.node_tree]
  exact ⟨whole.2.held _ _, fun node member => (fit node member).held rfl⟩

theorem fits_tryStatement : tryStatement.Fits := by
  have param : (parenthesized bindingTarget).Ensures shapes Node.Target := by
    simpa using targets_bindingTarget
  have handler : catchClause.Fits := by
    refine fits_node (.map₂ (ensures_optional_forall param).after fits_block ?_)
    intro param target body fit
    refine Form.fit_of_held (fun node member => (target node member).1.2) trivial rfl ?_
    simp only [Form.fields, Fields.all_append, Fields.all_treeOf?, Fields.all_one, Node.node_tree]
    exact ⟨fun node member => (target node member).sound.held _ _, fit.held rfl⟩
  refine fits_node (.map₃ fits_block.after (ensures_optional_forall handler)
    (ensures_optional_forall fits_block.after) ?_)
  intro block fit handler first finalizer second
  refine Form.fit_of_held trivial trivial rfl ?_
  simp only [Form.fields, Fields.all_append, Fields.all_treeOf?, Fields.all_one, Node.node_tree]
  exact ⟨⟨fit.held rfl, fun node member => (first node member).held rfl⟩,
    fun node member => (second node member).held rfl⟩

theorem wholes_returnStatement : returnStatement.Wholes := by
  refine wholes_node ((ensures_optional_forall
    wholes_expression.sounds.after).after.before.before.start fun argument sound => ?_)
  exact Form.whole_of_parts trivial trivial rfl (by simpa [Form.fields] using sound)

theorem wholes_jump (word : String) {form : Option Ident → Form}
    (whole : ∀ label, (form label).Whole) : (jump word form).Wholes :=
  wholes_node (Ensures.anything.start fun label _ => whole label)

theorem stands_statementBody : statementBody.Ensures shapes Node.Stands := by
  have blank : (node ((fun _ => .emptyStatement) <$> symbol ";")).Wholes :=
    wholes_node (Ensures.anything.start fun _ _ =>
      Form.whole_of_parts trivial trivial rfl (by simp [Form.fields]))
  have thrown : throwStatement.Wholes :=
    wholes_node (wholes_expression.after.before.start fun _ whole =>
      Form.whole_of_parts trivial trivial rfl (by simp [Form.fields, whole.2]))
  have broken : ∀ label, (Form.breakStatement label).Whole := fun _ =>
    Form.whole_of_parts trivial trivial rfl (by simp [Form.fields, Ident.sound_node])
  have continued : ∀ label, (Form.continueStatement label).Whole := fun _ =>
    Form.whole_of_parts trivial trivial rfl (by simp [Form.fields, Ident.sound_node])
  have labeled : labeledStatement.Fits :=
    fits_node (.map₂ .anything stands_statement fun label _ _ stands =>
      Form.fit_of_held trivial trivial rfl
        (by simpa [Form.fields] using ⟨label.sound_node.held _ _, stands.held rfl⟩))
  have evaluated : (node (.expressionStatement <$> expression <* semicolon)).Ensures shapes
      Node.Whole :=
    wholes_node (Ensures.before (wholes_expression.start fun _ whole =>
      Form.whole_of_parts trivial trivial rfl (by simp [Form.fields, whole.2])))
  exact ⟨fits_block.stands, blank.fits.stands, stands_variableStatement,
    (fits_functionOf _ _).mono fun _ fits => fits.1.stands,
    (fits_classOf _ _).mono fun _ fits => fits.1.stands, fits_importDeclaration.stands,
    fits_exportDeclaration.stands, fits_ifStatement.stands, fits_forEachStatement.stands,
    fits_forStatement.stands, fits_whileStatement.stands, fits_doWhileStatement.stands,
    fits_switchStatement.stands, fits_tryStatement.stands, wholes_returnStatement.fits.stands,
    thrown.fits.stands, (wholes_jump _ broken).fits.stands, (wholes_jump _ continued).fits.stands,
    labeled.stands, evaluated.fits.stands⟩

/-! ## Whole texts -/

/-- Every rule of the grammar reads nodes of the shape that is said of it. -/
theorem ensures_body (name : Category) :
    (sourceGrammar.body name).Ensures shapes (shapes name) := by
  cases name with
  | bindingTarget => exact targets_bindingTargetBody
  | jsxElement => exact wholes_jsxElementBody
  | jsxFragment => exact wholes_jsxFragmentBody
  | construction => exact wholes_constructionBody
  | primary => exact wholes_primaryBody
  | callExpression => exact wholes_callExpressionBody
  | unary => exact wholes_unaryBody
  | assignment => exact wholes_assignmentBody
  | expression => exact wholes_expressionBody
  | statement => exact stands_statementBody

theorem holds_readProgram {rules : Category → Node → Prop} {holds : Node → Prop}
    (bodies : ∀ name, (sourceGrammar.body name).Ensures rules (rules name))
    (statements : statement.Ensures rules holds) {text : List Char} {body : List Node}
    (accepted : (readProgram text).value = .ok body) : ∀ node ∈ body, holds node := by
  have ensured : program.Ensures rules fun body => ∀ node ∈ body, holds node :=
    (ensures_many statements).after
  exact (reads_program text).ensures progressive_sourceGrammar.filled bodies ensured accepted

theorem exists_of_parse {source : String} {root : Node} (parsed : parse source = .ok root) :
    ∃ body, (readProgram source.toList).value = .ok body
      ∧ root = ⟨⟨0, source.toList.length⟩, .program body⟩ := by
  simp only [parse_eq] at parsed
  split at parsed
  · cases parsed
  · obtain ⟨body, accepted, rfl⟩ := Match.eq_ok_of_map_eq_ok parsed
    exact ⟨body, accepted, rfl⟩

/-- **The tree of a text that can be read is shaped and tidy.** -/
theorem sound_of_parse {source : String} {root : Node} (parsed : parse source = .ok root) :
    root.Sound := by
  obtain ⟨body, accepted, rfl⟩ := exists_of_parse parsed
  have stands : ∀ node ∈ body, node.Stands :=
    holds_readProgram ensures_body stands_statement accepted
  have sound : (Form.program body).Sound := Form.sound_of_held trivial trivial rfl
    (by simpa [Form.fields] using fun node member => (stands node member).held rfl)
  exact sound _

theorem operand_of_parse {source : String} {root : Node} (parsed : parse source = .ok root) :
    root.Operand := (sound_of_parse parsed).1

theorem tidy_of_parse {source : String} {root : Node} (parsed : parse source = .ok root) :
    root.Tidy := (sound_of_parse parsed).2.1

end TemplateLint.Grammar
