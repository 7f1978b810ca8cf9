import TemplateLint.Proofs.Grammar.Placement.Expression

/-!
# Where statements lie

The productions of statements and module declarations yield nested nodes. Decorators before an
export are read before the class that they are put on, and so stand before it
(`nested_decorateClass`).
-/

namespace TemplateLint.Grammar

open TemplateLint.Syntax Peg

/-! ## Declarations -/

instance quiet_variableKind : variableKind.Quiet := .trimmed

instance yields_variableDeclarator : variableDeclarator.YieldsNode :=
  yields_node rfl (builds_map₂ fun target init => fits_parts (by simp [Form.fields]))

instance yields_variableDeclaration : variableDeclaration.Yields fun form => form.fields.nodes := by
  refine Builds.yields (builds_map₂ fun kind declarations => ?_)
  intro source low high run
  simpa [Form.fields] using run

theorem yields_form {form : Parser Form} [form.Yields fun form => form.fields.nodes]
    (filled : form.nullable = false) : (node form).YieldsNode :=
  yields_node filled (builds_part fun _ => fits_parts rfl)

instance yields_variableStatement : variableStatement.YieldsNode := yields_form rfl

instance yields_someIdentifier : (some <$> identifier : Parser (Option Ident)).Yields
    fun id? => id?.toList.flatMap fun id => [id.node] := .map yields_identifier

instance yields_functionDeclaration : functionDeclaration.YieldsNode := yields_functionOf _

instance yields_classDeclaration : classDeclaration.YieldsNode := yields_classOf _

/-! ## Imports -/

instance yields_importSpecifier : importSpecifier.YieldsNode := by
  refine yields_node rfl (builds_map₂ fun imported alias? => ?_)
  cases alias? with
  | none => exact fits_twice (by simp [Form.fields])
  | some binding => exact fits_parts (by simp [Form.fields])

instance yields_importNamespace :
    importNamespace.Yields fun nodes => nodes.flatMap fun node => [node] :=
  .map (yields_wrapped rfl fun _ => by simp [Form.fields])

instance yields_importNamed : importNamed.Yields fun nodes => nodes.flatMap fun node => [node] :=
  yields_braced

instance yields_importDefault :
    importDefault.Yields fun nodes => nodes.flatMap fun node => [node] := by
  refine Builds.yields (builds_map₂ fun id more => ?_)
  have binding : Fits [id.node] (.importDefault id) := fits_parts (by simp [Form.fields])
  have gathers : Gathers ([] ++ [id.node] ++ more.getD [])
      ([] ++ [⟨id.span, .importDefault id⟩] ++ more.getD []) :=
    binding.gathers_single.within [] (more.getD [])
  cases more with
  | none => exact gathers
  | some nodes => simpa using gathers

instance yields_importDeclaration : importDeclaration.YieldsNode := by
  have named : (Prod.mk <$> (importNamespace <|> importNamed <|> importDefault)
      <*> (keyword "from" *> stringLiteral)).Yields
        fun parts => (parts.1.flatMap fun node => [node]) ++ [parts.2] :=
    Builds.yields (builds_map₂ fun _ _ _ _ _ run => run)
  have bare : (([], ·) <$> stringLiteral : Parser (List Node × Node)).Yields
      fun parts => (parts.1.flatMap fun node => [node]) ++ [parts.2] := .map yields_stringLiteral
  refine yields_wrapped rfl ?_
  rintro ⟨specifiers, origin⟩
  show (Form.importDeclaration specifiers origin).fields.nodes = _
  simp [Form.fields]

/-! ## Exports -/

instance yields_exportSpecifier : exportSpecifier.YieldsNode := by
  refine yields_node rfl (builds_map₂ fun binding alias? => ?_)
  cases alias? with
  | none => exact fits_twice (by simp [Form.fields])
  | some exported => exact fits_parts (by simp [Form.fields])

theorem yields_formOf {α : Type} {part : Parser α} {yield : α → List Node} {f : α → Form}
    [part.Yields yield] (parts : ∀ value, (f value).fields.nodes = yield value) :
    (f <$> part).Yields fun form => form.fields.nodes := by
  refine Builds.yields (builds_start fun value => ?_)
  intro source low high run
  rwa [parts value]

instance yields_exportDefault : exportDefault.Yields fun form => form.fields.nodes :=
  yields_formOf fun _ => by simp [Form.fields]

instance yields_exportAll : exportAll.Yields fun form => form.fields.nodes :=
  yields_formOf fun _ => by simp [Form.fields]

instance yields_exportNamed : exportNamed.Yields fun form => form.fields.nodes := by
  refine .ahead (Builds.yields (builds_map₂ fun specifiers origin => ?_))
  intro source low high run
  simpa [Form.fields] using run

instance yields_exportedDeclaration : exportedDeclaration.Yields fun form => form.fields.nodes :=
  yields_formOf fun _ => by simp [Form.fields]

/-- Decorators stand before some other nodes, with the word `export` between them. -/
def ExportApart (source : List Char) (decorators nodes : List Node) : Prop :=
  ∀ decorator ∈ decorators, ∀ node ∈ nodes, ExportBetween source decorator.stop node.start

/-- Decorators that stand before `export` move into the class behind it. -/
theorem nested_decorateClass {source : List Char} {low high : Nat} {decorators : List Node}
    {declaration decorated : Node} (moved : Run source low high decorators)
    (nested : declaration.Nested source) (after : low ≤ declaration.start)
    (apart : ExportApart source decorators [declaration])
    (found : decorateClass decorators declaration = some decorated) :
    decorated.span = declaration.span ∧ decorated.tree.Nested source low := by
  have before : ∀ decorator ∈ decorators, ExportBetween source decorator.stop declaration.start :=
    fun decorator member => apart decorator member declaration (.head _)
  obtain ⟨span, form⟩ := declaration
  cases form with
  | classDefinition role own id superClass body =>
    obtain rfl := Option.some.inj found
    have framed := nested.framed rfl
    obtain ⟨ordered, parts, sorted⟩ := Node.nested_tree_iff.1 (nested.mono after)
    refine ⟨rfl, Node.nested_tree_iff.2 ⟨ordered, ?_, ?_⟩⟩
    · simp only [Form.fields, Fields.all_append, Fields.all_treesOf, List.forall_mem_append,
        Node.node_tree] at parts ⊢
      refine ⟨⟨⟨⟨?_, parts.1.1.1⟩, parts.1.1.2⟩, parts.1.2⟩, parts.2⟩
      intro decorator member
      exact ⟨.inr ⟨rfl, rfl, (moved.inside decorator member).1, before decorator member⟩,
        moved.nested decorator member⟩
    · have nodes : (Form.classDefinition role (decorators ++ own) id superClass body).fields.nodes
          = decorators ++ (Form.classDefinition role own id superClass body).fields.nodes := by
        simp [Form.fields]
      rw [nodes]
      refine List.pairwise_append.2 ⟨moved.framed.sorted, sorted, ?_⟩
      intro decorator member part listed
      have first := (moved.nested decorator member).ordered
      have second := (before decorator member).le
      have third := (framed.inside part listed).1
      exact Nat.le_trans first (Nat.le_trans second third)
  | _ => cases found

/-- What an export may hold: a class whose decorators stand from the start of the export on, and
further nodes behind it. -/
theorem covers_decorateClass {source : List Char} {low high : Nat} {decorators rest : List Node}
    {declaration decorated : Node} (moved : Run source low high decorators)
    (kept : Run source low high (declaration :: rest))
    (apart : ExportApart source decorators (declaration :: rest))
    (found : decorateClass decorators declaration = some decorated) :
    ((low ≤ decorated.start ∧ decorated.stop ≤ high) ∧ decorated.tree.Nested source low)
      ∧ (∀ node ∈ rest, (low ≤ node.start ∧ node.stop ≤ high) ∧ node.Nested source)
      ∧ (decorated :: rest).Pairwise fun former latter => former.start ≤ latter.start := by
  have nested := kept.nested declaration (.head _)
  have inside := kept.inside declaration (.head _)
  have apartHead : ExportApart source decorators [declaration] := by
    intro decorator member node listed
    exact apart decorator member node (List.mem_singleton.1 listed ▸ .head _)
  obtain ⟨span, nested⟩ := nested_decorateClass moved nested inside.1 apartHead found
  have sorted := List.pairwise_cons.1 kept.framed.sorted
  simp only [Node.start, Node.stop, span, List.pairwise_cons]
  exact ⟨⟨inside, nested⟩,
    fun node member => ⟨kept.inside node (.tail _ member), kept.nested node (.tail _ member)⟩, sorted⟩

theorem nested_decorateExport {source : List Char} {low high : Nat} {decorators : List Node}
    {form decorated : Form} (ordered : low ≤ high) (moved : Run source low high decorators)
    (kept : Run source low high form.fields.nodes)
    (apart : ExportApart source decorators form.fields.nodes)
    (found : decorateExport decorators form = some decorated) :
    Node.Nested source ⟨⟨low, high⟩, decorated⟩ := by
  unfold decorateExport at found
  split at found
  next =>
    obtain rfl := Option.some.inj found
    exact kept.framed.nested_mk ordered
  next =>
    split at found
    next declaration specifiers origin =>
      obtain ⟨definition, put, rfl⟩ := Option.map_eq_some_iff.1 found
      have nodes : (Form.exportNamed (some declaration) specifiers origin).fields.nodes
          = declaration :: (specifiers ++ origin.toList) := by
        simp [Form.fields]
      rw [nodes] at kept apart
      obtain ⟨⟨inside, nested⟩, behind, sorted⟩ := covers_decorateClass moved kept apart put
      refine Node.nested_tree_iff.2 ⟨ordered, ?_, by simpa [Form.fields] using sorted⟩
      simp only [Form.fields, Fields.all_append, Fields.all_treesOf, Fields.all_treeOf?,
        Node.node_tree, Option.mem_some_iff, forall_eq']
      refine ⟨⟨⟨.inl inside, nested⟩, fun node member => ?_⟩, fun node member => ?_⟩
      · have held := behind node (List.mem_append_left _ member)
        exact ⟨.inl held.1, held.2⟩
      · have held := behind node (List.mem_append_right _ (Option.mem_toList.2 member))
        exact ⟨.inl held.1, held.2⟩
    next declaration =>
      obtain ⟨definition, put, rfl⟩ := Option.map_eq_some_iff.1 found
      have nodes : (Form.exportDefault declaration).fields.nodes = [declaration] := by
        simp [Form.fields]
      rw [nodes] at kept apart
      obtain ⟨⟨inside, nested⟩, -, -⟩ := covers_decorateClass moved kept apart put
      refine Node.nested_tree_iff.2 ⟨ordered, ?_, by simp [Form.fields]⟩
      simp only [Form.fields, Fields.all_one, Node.node_tree]
      exact ⟨.inl inside, nested⟩
    next => cases found

theorem word_of_scan {word : String} {source : List Char} {offset width : Nat}
    (scanned : Terminal.scan (.word [word]) (source.drop offset) = some width) :
    width = word.length ∧ word.toList <+: source.drop offset := by
  obtain ⟨found, member, fits, rfl⟩ := exists_of_find?_map scanned
  obtain rfl := List.mem_singleton.1 member
  exact ⟨rfl, List.isPrefixOf_iff_prefix.1 (Bool.and_eq_true_iff.1 fits).1⟩

instance yields_exportDeclaration : exportDeclaration.YieldsNode := by
  have decorators : Yields (.many decorator) _ := .many
  have exported : (exportDefault <|> exportAll <|> exportNamed <|> exportedDeclaration).Yields _ :=
    .choice
  -- The word `export` is no node, so the decorators before it and the nodes behind it are followed
  -- cursor by cursor.
  constructor
  intro source cursor
  apply (decorators.run source _).mono
  rintro before decorators ⟨start, moved⟩ word wordMoved scanned _ _ _ begun begunMoved _ _ _ _
  rw [List.flatMap_singleton'] at moved
  apply (exported.run source begun).mono
  rintro last form ⟨lastMoved, kept⟩ inner _ _ innerEnds decorated accepted after afterMoved _ ends
  have apart : ExportApart source decorators form.fields.nodes := by
    intro decorator member node listed
    have left := (moved.inside decorator member).2
    have right := (kept.inside node listed).1
    obtain ⟨width, spelled⟩ := word_of_scan scanned
    have begins := wordMoved.2
    have behind := begunMoved.2
    exact ⟨before.place, Nat.le_trans left before.ordered, by omega, spelled⟩
  have further : before ≤ begun := Cursor.le_trans wordMoved begunMoved
  have reached : before.content ≤ last.content := Nat.le_trans further.1 lastMoved.1
  have ordered : cursor.place ≤ last.content := Nat.le_trans start.1 reached
  have lower : cursor.place ≤ begun.place := Nat.le_trans start.2 further.2
  have settled : inner.content = last.content := innerEnds rfl
  refine ⟨afterMoved, ?_⟩
  rw [ends rfl, settled]
  simp only at accepted
  split at accepted
  next found =>
    cases accepted
    have nested := nested_decorateExport ordered (moved.mono (Nat.le_refl _) reached)
      (kept.mono lower (Nat.le_refl _)) apart found
    exact .single nested (Nat.le_refl _) (Nat.le_refl _)
  next => cases accepted

/-! ## Control flow -/

instance yields_test : test.YieldsNode := yields_parenthesized

instance yields_ifStatement : ifStatement.YieldsNode :=
  yields_node rfl (builds_map₃ fun test consequent alternate => fits_parts (by simp [Form.fields]))

instance yields_whileStatement : whileStatement.YieldsNode :=
  yields_node rfl (builds_map₂ fun test body => fits_parts (by simp [Form.fields]))

instance yields_doWhileStatement : doWhileStatement.YieldsNode :=
  yields_node rfl (.skip (builds_map₂ fun body test => fits_parts (by simp [Form.fields])))

instance yields_loopDeclaration : loopDeclaration.YieldsNode := by
  refine yields_node rfl (builds_map₂ fun kind target => ?_)
  have declarator : Fits [target] (.variableDeclarator target none) :=
    fits_parts (by simp [Form.fields])
  apply fits_of_gathers
  simpa [Form.fields] using declarator.gathers_single

instance yields_forEachStatement : forEachStatement.YieldsNode := by
  refine yields_node rfl (builds_map₄ fun left operator right body => ?_)
  split <;> exact fits_parts (by simp [Form.fields])

instance yields_forStatement : forStatement.YieldsNode := by
  have init : (node variableDeclaration).YieldsNode := yields_form rfl
  exact yields_node rfl (builds_map₄ fun init test update body => fits_parts (by simp [Form.fields]))

instance yields_switchCase : switchCase.YieldsNode := by
  have label : (some <$> (keyword "case" *> expression <* symbol ":")
      <|> (fun _ => none) <$> (keyword "default" *> symbol ":")).Yields
      fun test : Option Node => test.toList :=
    .orElse (.map .before) (.map Quiet.yields)
  exact yields_node rfl (builds_map₂ fun test consequent => fits_parts (by simp [Form.fields]))

instance yields_switchStatement : switchStatement.YieldsNode :=
  yields_node rfl (builds_map₂ fun discriminant cases => fits_parts (by simp [Form.fields]))

instance yields_catchClause : catchClause.YieldsNode :=
  yields_node rfl (builds_map₂ fun param body => fits_parts (by simp [Form.fields]))

instance yields_tryStatement : tryStatement.YieldsNode :=
  yields_node rfl (builds_map₃ fun block handler finalizer => fits_parts (by simp [Form.fields]))

instance yields_returnStatement : returnStatement.YieldsNode :=
  yields_wrapped rfl fun _ => by simp [Form.fields]

instance yields_throwStatement : throwStatement.YieldsNode :=
  yields_wrapped rfl fun _ => by simp [Form.fields]

theorem yields_jump {word : String} {form : Option Ident → Form}
    (filled : Terminal.nullable (.command word) = false)
    (parts : ∀ label, (form label).fields.nodes = label.toList.flatMap fun id => [id.node]) :
    (jump word form).YieldsNode := by
  refine yields_wrapped ?_ parts
  show (true && (true && (true && Terminal.nullable (.command word) && true) && trivia.nullable)
    && semicolon.nullable) = false
  rw [filled]
  rfl

instance yields_labeledStatement : labeledStatement.YieldsNode :=
  yields_node rfl (builds_map₂ fun label body => fits_parts (by simp [Form.fields]))

instance yields_statementBody : statementBody.YieldsNode := by
  have empty : (node ((fun _ => .emptyStatement) <$> symbol ";")).YieldsNode :=
    yields_wrapped rfl fun _ => by simp [Form.fields]
  have leave : (jump "break" .breakStatement).YieldsNode :=
    yields_jump rfl fun _ => by simp [Form.fields, List.map_eq_flatMap]
  have again : (jump "continue" .continueStatement).YieldsNode :=
    yields_jump rfl fun _ => by simp [Form.fields, List.map_eq_flatMap]
  have expression : (node (.expressionStatement <$> expression <* semicolon)).YieldsNode :=
    yields_node rfl (.skip (builds_start fun _ => fits_parts (by simp [Form.fields])))
  exact .choice

end TemplateLint.Grammar
