import Mathlib.Data.List.Basic
import TemplateLint.Proofs.Grammar.Yields

/-!
# Where the parts of expressions and statements lie

The productions that expressions and statements are built from yield nested nodes: literals,
patterns, keys, functions, what follows a called expression, classes and markup.
-/

namespace TemplateLint.Grammar

open TemplateLint.Syntax Peg

/-! ## Literals -/

theorem nullable_lexeme {class_ : Terminal} (filled : class_.nullable = false) :
    (lexeme class_).nullable = false := by
  show (true && class_.nullable && trivia.nullable) = false
  rw [filled]
  rfl

theorem yields_literalOf {class_ : Terminal} (filled : class_.nullable = false)
    (value? : List Char → Option LiteralValue) :
    (literalOf class_ value?).YieldsNode := by
  apply yields_node (nullable_lexeme filled)
  refine builds_check (builds_part fun raw form accepted => ?_)
  cases value : value? raw.toList with
  | none =>
    rw [value] at accepted
    cases accepted
  | some found =>
    rw [value] at accepted
    cases accepted
    exact fits_parts (by simp [Form.fields])

instance yields_stringLiteral : stringLiteral.YieldsNode := yields_literalOf rfl _

instance yields_numberLiteral : numberLiteral.YieldsNode := yields_literalOf rfl _

instance yields_regexLiteral : regexLiteral.YieldsNode := yields_literalOf rfl _

instance yields_literal : literal.YieldsNode :=
  .orElse (yields_wrapped rfl fun _ => by simp [Form.fields])
    (.orElse (yields_wrapped rfl fun _ => by simp [Form.fields]) inferInstance)

instance yields_templatePart : templatePart.Yields fun part => part.getRight?.toList :=
  .orElse (.map Quiet.yields) (.map .before)

instance yields_templateLiteral : templateLiteral.YieldsNode :=
  yields_wrapped rfl fun parts => by simp [Form.fields, List.filterMap_eq_flatMap_toList]

/-! ## Patterns -/

instance yields_initializer : initializer.YieldsNode := .after

instance yields_propertyKey : propertyKey.Yields fun key => [key.1] :=
  .orElse (.map yields_bracketed) (.orElse (.map yields_anyName)
    (.orElse (.map yields_stringLiteral) (.map yields_numberLiteral)))

instance yields_restTarget : restTarget.YieldsNode :=
  yields_wrapped rfl fun _ => by simp [Form.fields]

theorem fits_assignmentPattern (target value : Node) :
    Fits [target, value] (.assignmentPattern target value) :=
  fits_parts (by simp [Form.fields])

instance yields_bindingElement : bindingElement.YieldsNode := by
  refine .map (yields_located rfl (builds_map₂ fun target default? => ?_))
  intro source extent ordered run
  cases default? with
  | none => exact run
  | some value => exact (fits_assignmentPattern target value).run ordered run

instance yields_sparseList {element : Parser Node} [element.YieldsNode] :
    (sparseList element).Yields fun slots => slots.filterMap id := by
  refine Builds.yields (builds_start fun slots => ?_)
  intro source low high run
  have nodes : [] ++ slots.flatMap (fun slot => slot.toList.flatMap fun node => [node])
      = slots.filterMap id := by
    simp [List.filterMap_eq_flatMap_toList]
  rw [nodes] at run
  split
  · -- A last place that is left out holds no node.
    rename_i last
    rw [← List.dropLast_append_getLast? none last, List.filterMap_append] at run
    simpa using run
  · exact run

instance yields_arrayPattern : arrayPattern.YieldsNode :=
  yields_wrapped rfl fun _ => by simp [Form.fields]

theorem fits_twice {id : Ident} {form : Form} (parts : form.fields.nodes = [id.node, id.node]) :
    Fits [id.node] form := by
  intro source low high ordered run
  have nested := run.nested id.node (.head _)
  have inside := run.inside id.node (.head _)
  apply Framed.nested_mk _ ordered
  rw [parts]
  constructor
  · simpa using nested
  · simpa using inside
  · simp

theorem fits_shorthandDefault (id : Ident) (value : Node) :
    Fits [id.node, value] (.property id.node
      ⟨⟨id.span.start, value.stop⟩, .assignmentPattern id.node value⟩ .shorthand false) := by
  intro source low high ordered run
  have key := run.nested id.node (.head _)
  have before := run.inside id.node (.head _)
  have whole := (fits_assignmentPattern id.node value).gathers source low high run
  have pattern := whole.nested _ (.head _)
  have inside := whole.inside _ (.head _)
  apply Framed.nested_mk _ ordered
  constructor
  · simpa [Form.fields] using ⟨key, pattern⟩
  · simpa [Form.fields] using ⟨before, inside⟩
  · simp only [Form.fields, Fields.nodes_append, Fields.nodes_one, Fields.nodes_text,
      Fields.nodes_flag, Node.node_tree, List.append_nil, List.singleton_append]
    exact List.pairwise_pair.2 (Nat.le_refl _)

instance yields_shorthandProperty : shorthandProperty.YieldsNode := by
  refine yields_node rfl (builds_map₂ fun id default? => ?_)
  cases default? with
  | none => exact fits_twice (by simp [Form.fields])
  | some value => exact fits_shorthandDefault id value

theorem fits_property (key value : Node) (style : PropertyStyle) (computed : Bool) :
    Fits [key, value] (.property key value style computed) :=
  fits_parts (by simp [Form.fields])

instance yields_keyedTarget : keyedTarget.YieldsNode :=
  yields_node rfl (builds_map₂ fun key value => fits_property key.1 value .keyed key.2)

instance yields_objectPattern : objectPattern.YieldsNode :=
  yields_wrapped rfl fun _ => by simp [Form.fields]

instance yields_identifierNode : (Ident.node <$> identifier : Parser Node).YieldsNode :=
  .map yields_identifier

instance yields_bindingTargetBody : bindingTargetBody.YieldsNode := .choice

/-! ## Functions -/

instance yields_params : params.Yields fun nodes => nodes.flatMap fun node => [node] :=
  yields_parenthesized

instance yields_block : block.YieldsNode := yields_wrapped rfl fun _ => by simp [Form.fields]

instance quiet_generatorStar : generatorStar.Quiet := .map _

instance quiet_accessor : accessor.Quiet := .optional

instance yields_locatedParams : Yields (.located params) fun params =>
    [bundle params.1.start params.1.content params.2] := by
  refine yields_located rfl (builds_part fun nodes source extent ordered run => ?_)
  rw [List.nil_append, List.flatMap_singleton'] at run
  exact (fits_bundle nodes).run ordered run

theorem gathers_methodFunction (isAsync generator : Bool) (params : Extent × List Node)
    (body : Node) : Gathers [bundle params.1.start params.1.content params.2, body]
      [methodFunction isAsync generator params body] := by
  apply Fits.gathers
  intro source low high ordered run
  have framed : Framed source low high ([] ++ params.2 ++ [body]) := Run.framed_bundle run
  apply Framed.nested_mk _ ordered
  simpa [Form.fields] using framed

instance yields_functionOf (role : Role) {name : Parser (Option Ident)}
    [name.Yields fun id? => id?.toList.flatMap fun id => [id.node]] :
    (functionOf role name).YieldsNode :=
  yields_node rfl (builds_map₅ fun isAsync generator id? params body =>
    fits_parts (by simp [Form.fields, List.map_eq_flatMap]))

/-! ## What follows a called or accessed expression -/

namespace Tail

/-- The nodes of what follows a called expression, in order. -/
def nodes : Tail → List Node
  | .member property _ => [property]
  | .call arguments => arguments
  | .template quasi => [quasi]

def node (tail : Extent × Tail) : Node := bundle tail.1.start tail.1.content tail.2.nodes

end Tail

theorem gathers_applyTail (callee : Node) (tail : Extent × Tail) :
    Gathers [callee, Tail.node tail] [applyTail callee tail] := by
  apply Fits.gathers
  intro source low high ordered run
  have framed : Framed source low high ([callee] ++ tail.2.nodes ++ []) := Run.framed_bundle run
  rw [List.append_nil] at framed
  apply Framed.nested_mk _ ordered
  obtain ⟨extent, tail⟩ := tail
  cases tail <;> simpa [Form.fields, Tail.nodes] using framed

theorem gathers_applyTails (head : Node) (tails : List (Extent × Tail)) :
    Gathers (head :: tails.map Tail.node) [tails.foldl applyTail head] := by
  induction tails generalizing head with
  | nil => exact fun source low high run => run
  | cons tail rest ih =>
    intro source low high run
    have first := (gathers_applyTail head tail).within [] (rest.map Tail.node)
    exact ih _ source low high (first source low high run)

instance yields_spreadElement :
    (node (.spreadElement <$> (symbol "..." *> assignment))).YieldsNode :=
  yields_wrapped rfl fun _ => by simp [Form.fields]

instance yields_spreadOrAssignment : spreadOrAssignment.YieldsNode := .choice

instance yields_arguments : arguments.Yields fun nodes => nodes.flatMap fun node => [node] :=
  yields_parenthesized

instance yields_callArguments : (Tail.call <$> arguments : Parser Tail).Yields Tail.nodes :=
  .map (yields_arguments.gather fun nodes source low high run => by simpa [Tail.nodes] using run)

instance yields_dotMember : dotMember.Yields Tail.nodes := .map .after

instance yields_computedMember : computedMember.Yields Tail.nodes := .map yields_bracketed

instance yields_template : (Tail.template <$> templateLiteral : Parser Tail).Yields Tail.nodes :=
  .map yields_templateLiteral

instance yields_callTail : callTail.Yields Tail.nodes := .choice

theorem yields_locatedTail {tail : Parser Tail} [tail.Yields Tail.nodes]
    (filled : tail.nullable = false) : Yields (.located tail) fun tail => [Tail.node tail] :=
  yields_located filled (builds_part fun found _ _ ordered run =>
    (fits_bundle found.nodes).run ordered run)

/-! ## Decorators and classes -/

instance yields_decorator : decorator.YieldsNode := by
  have member : Yields (.located dotMember) _ := yields_locatedTail rfl
  have call : Yields (.located (Tail.call <$> arguments)) _ := yields_locatedTail rfl
  refine yields_node rfl (builds_map₃ fun id members arguments => fits_of_gathers ?_)
  intro source low high run
  have applied := gathers_applyTails id.node (members ++ arguments.toList) source low high
  simp only [Form.fields, Fields.nodes_one, Node.node_tree]
  apply applied
  simpa [List.map_eq_flatMap] using run

instance quiet_staticMark : staticMark.Quiet := .map _

instance yields_methodDefinition : methodDefinition.YieldsNode := by
  -- Seven parts: the first five are put together before the parameters and the body.
  refine yields_node rfl (builds_next (builds_next (builds_map₅
    fun decorators isStatic accessor generator key params body => fits_of_gathers ?_)))
  intro source low high run
  have method := gathers_methodFunction (accessor == some "async") generator params body
  have gathered := method.within (decorators ++ [key.1]) [] source low high (by simpa using run)
  simpa [Form.fields] using gathered

instance yields_classProperty : classProperty.YieldsNode :=
  yields_node rfl (.skip (builds_map₄ fun decorators isStatic key value =>
    fits_parts (by simp [Form.fields])))

instance yields_classMember : classMember.Yields Option.toList :=
  .orElse (.map yields_methodDefinition) (.orElse (.map yields_classProperty) (.map Quiet.yields))

instance yields_classBody : classBody.YieldsNode :=
  yields_wrapped rfl fun members => by simp [Form.fields, List.filterMap_eq_flatMap_toList]

instance yields_classOf (role : Role) {name : Parser (Option Ident)}
    [name.Yields fun id? => id?.toList.flatMap fun id => [id.node]] :
    (classOf role name).YieldsNode :=
  yields_node rfl (builds_map₄ fun decorators id? superClass body =>
    fits_parts (by simp [Form.fields, List.map_eq_flatMap]))

/-! ## Markup -/

instance yields_tagPart : tagPart.Yields fun id => [(TagName.simple id).node] :=
  yields_nameOf rfl fun _ => by
    rw [Form.fields]
    rfl

theorem gathers_member (object : TagName) (property : Ident) :
    Gathers [object.node, (TagName.simple property).node] [(TagName.member object property).node] := by
  have parts : (Form.jsxName (.member object property)).fields.nodes
      = [object.node, (TagName.simple property).node] := by
    rw [Form.fields]
    exact congrArg (· :: _) (TagName.node_tree object)
  exact (fits_parts parts).gathers

theorem gathers_members (object : TagName) (properties : List Ident) :
    Gathers (object.node :: properties.map fun id => (TagName.simple id).node)
      [(properties.foldl TagName.member object).node] := by
  induction properties generalizing object with
  | nil => exact fun source low high run => run
  | cons property rest ih =>
    intro source low high run
    exact ih _ source low high ((gathers_member object property).within []
      (rest.map fun id => (TagName.simple id).node) source low high run)

theorem gathers_namespaced (space name : Ident) :
    Gathers [(TagName.simple space).node, (TagName.simple name).node]
      [(TagName.namespaced space name).node] := by
  have parts : (Form.jsxName (.namespaced space name)).fields.nodes
      = [(TagName.simple space).node, (TagName.simple name).node] := by
    rw [Form.fields]
    rfl
  exact (fits_parts parts).gathers

instance yields_namespacedName : namespacedName.Yields fun name => [name.node] :=
  .ahead (Builds.yields (builds_map₂ fun space name => gathers_namespaced space name))

instance yields_memberName : memberName.Yields fun name => [name.node] := by
  refine .ahead (Builds.yields (builds_map₃ fun object first rest => ?_))
  intro source low high run
  apply gathers_members (.simple object) (first :: rest)
  simpa [List.map_eq_flatMap] using run

instance yields_simpleName : simpleName.Yields fun name => [name.node] := .ahead (.map yields_tagPart)

instance yields_elementName : elementName.Yields fun name => [name.node] := .choice

instance yields_markup : markup.YieldsNode := .before

instance yields_container : container.YieldsNode := yields_wrapped rfl fun _ => by simp [Form.fields]

instance yields_attributeString : attributeString.YieldsNode :=
  yields_wrapped rfl fun _ => by simp [Form.fields]

instance yields_attributeValue : attributeValue.YieldsNode := .after

instance yields_attribute : attribute_.YieldsNode :=
  .orElse (yields_wrapped rfl fun _ => by simp [Form.fields])
    (yields_node rfl (builds_map₂ fun name value => fits_parts (by simp [Form.fields])))

instance yields_tagHead : tagHead.Yields fun head => head.1.node :: head.2 := by
  refine Builds.yields (builds_map₂ fun name attributes => ?_)
  intro source low high run
  simpa using run

theorem fits_jsxOpening (name : TagName) (attributes : List Node) (selfClosing : Bool) :
    Fits (name.node :: attributes) (.jsxOpening name attributes selfClosing) :=
  fits_parts (by simp [Form.fields])

instance yields_selfClosingElement : selfClosingElement.YieldsNode := by
  refine .map (yields_located rfl (builds_part fun head source extent ordered run => ?_))
  have opening := (fits_jsxOpening head.1 head.2 true).run ordered run
  have fits : ∀ opening : Node, Fits [opening] (.jsxElement opening [] none) := by
    intro opening
    exact fits_parts (by simp [Form.fields])
  exact (fits _).run ordered opening

instance yields_openingTag : openingTag.Yields fun opening => [opening.2] :=
  .map (yields_located rfl (builds_part fun head _ _ ordered run =>
    (fits_jsxOpening head.1 head.2 false).run ordered run))

instance yields_closingTag : closingTag.Yields fun closing => [closing.2] := by
  refine .map (yields_located rfl (builds_part fun name source extent ordered run => ?_))
  have fits : Fits [name.node] (.jsxClosing name) := fits_parts (by simp [Form.fields])
  exact fits.run ordered run

instance yields_childBody : childBody.Yields (Sum.elim (fun node => [node]) fun node => [node]) :=
  .orElse (.map .after) (.map (yields_rule .expression))

theorem run_emptyContainer {source : List Char} {low high offset : Nat} (after : low ≤ offset)
    (before : offset ≤ high) :
    Run source low high [⟨⟨low, high⟩, .jsxContainer ⟨⟨offset, offset⟩, .jsxEmpty⟩⟩] := by
  have empty : Fits [] .jsxEmpty := fits_parts (by simp [Form.fields])
  have container : ∀ node : Node, Fits [node] (.jsxContainer node) := by
    intro node
    exact fits_parts (by simp [Form.fields])
  have inside := (empty.run (Nat.le_refl offset) (.nil source _ _)).mono after before
  exact (container _).run (Nat.le_trans after before) inside

instance yields_childContainer : childContainer.YieldsNode := by
  -- The empty expression stands where trivia ends, which is behind the content so far. So this is
  -- followed cursor by cursor, up to the closing brace.
  constructor
  intro source cursor opened openedMoved _ _ _ _ blank blankMoved _ _ _ _ behind _ reached _
  have lower : cursor.place ≤ blank.place := Nat.le_trans openedMoved.2 blankMoved.2
  constructor
  · intro closed closedMoved _ token _ _ after moved _ ends
    have upper : blank.place ≤ closed.content := by
      have place := closedMoved.2
      have settled := (token rfl).2
      omega
    have content : after.content = closed.content := ends rfl
    refine ⟨moved, ?_⟩
    rw [content]
    exact run_emptyContainer lower upper
  · apply (yields_childBody.run source behind).mono
    rintro read body ⟨readMoved, run⟩ closed closedMoved _ token _ _ after moved _ ends
    have content : after.content = closed.content := ends rfl
    have ordered : cursor.place ≤ closed.content := by
      have place := readMoved.2
      have place' := closedMoved.2
      have settled := (token rfl).2
      omega
    have inside : ∀ node, Run source behind.place read.content [node] →
        Run source cursor.place closed.content [node] := by
      intro node run
      exact run.mono (reached ▸ lower) closedMoved.1
    refine ⟨moved, ?_⟩
    rw [content]
    cases body with
    | inl expression =>
      have fits : Fits [expression] (.jsxSpreadChild expression) := fits_parts (by simp [Form.fields])
      exact fits.run ordered (inside expression run)
    | inr expression =>
      have fits : Fits [expression] (.jsxContainer expression) := fits_parts (by simp [Form.fields])
      exact fits.run ordered (inside expression run)

instance yields_child : child.YieldsNode :=
  .orElse (yields_wrapped rfl fun _ => by simp [Form.fields]) inferInstance

instance yields_fullElement : fullElement.YieldsNode := by
  refine yields_node rfl (builds_check (builds_map₃ fun opening children closing => ?_))
  intro form accepted
  simp only at accepted
  split at accepted
  · cases accepted
    exact fits_parts (by simp [Form.fields])
  · cases accepted

instance yields_jsxElementBody : jsxElementBody.YieldsNode := .choice

instance yields_jsxFragmentBody : jsxFragmentBody.YieldsNode :=
  yields_wrapped rfl fun _ => by simp [Form.fields]

end TemplateLint.Grammar
