import TemplateLint.Proofs.Grammar.Carries

/-!
# Moving what expressions and statements are built from

Literals, patterns, functions, tails, classes and markup are moved as a whole when the offsets of
their parts are moved. The functions that put them together commute with moving.
-/

namespace TemplateLint.Grammar

open TemplateLint.Syntax Peg

variable {σ : Nat → Nat} {α : Type} {part : Parser α} {act : α → α}

/-! ## Literals -/

instance carries_literalOf {class_ : Terminal} [Fact (class_.isToken = true)]
    (value? : List Char → Option LiteralValue) :
    (literalOf class_ value?).CarriesNode σ := by
  refine carries_node (.check fun raw => ?_)
  simp only [id]
  cases value? raw.toList with
  | none => trivial
  | some value =>
    show Form.literal value raw = Form.move σ (.literal value raw)
    rw [Form.move]

instance carries_stringLiteral : stringLiteral.CarriesNode σ := carries_literalOf _

instance carries_numberLiteral : numberLiteral.CarriesNode σ := carries_literalOf _

instance carries_regexLiteral : regexLiteral.CarriesNode σ := carries_literalOf _

instance carries_literal : literal.CarriesNode σ := by
  refine .orElse ?_ (.orElse ?_ inferInstance)
  · exact carries_node (.map fun _ => by simp [Form.move])
  · exact carries_node (.map fun _ => by simp [Form.move])

instance carries_templatePart : templatePart.Carries σ (Sum.map id (Node.move σ)) :=
  .orElse (.map fun _ => rfl) (.map fun _ => rfl)

theorem filterMap_getLeft?_map (parts : List (String ⊕ Node)) :
    (parts.map (Sum.map id (Node.move σ))).filterMap Sum.getLeft?
      = parts.filterMap Sum.getLeft? := by
  rw [List.filterMap_map]
  congr 1
  funext part
  cases part <;> rfl

theorem filterMap_getRight?_map (parts : List (String ⊕ Node)) :
    (parts.map (Sum.map id (Node.move σ))).filterMap Sum.getRight?
      = (parts.filterMap Sum.getRight?).map (Node.move σ) := by
  rw [List.filterMap_map, List.map_filterMap]
  congr 1
  funext part
  cases part <;> rfl

instance carries_templateLiteral : templateLiteral.CarriesNode σ := by
  refine carries_node (.map fun parts => ?_)
  rw [filterMap_getLeft?_map, filterMap_getRight?_map, Form.move, moveAll_eq_map]

/-! ## Patterns -/

instance carries_initializer : initializer.CarriesNode σ := .after

instance carries_propertyKey : propertyKey.Carries σ (Prod.map (Node.move σ) id) := by
  refine .orElse ?_ (.orElse ?_ (.orElse ?_ ?_))
  · exact .map fun _ => rfl
  · exact .map fun id => by rw [Ident.node_move]; rfl
  · exact .map fun _ => rfl
  · exact .map fun _ => rfl

instance carries_restTarget : restTarget.CarriesNode σ :=
  carries_node (.map fun _ => by rw [Form.move])

instance carries_bindingElement : bindingElement.CarriesNode σ := by
  refine .map ?_
  rintro ⟨extent, target, default?⟩
  cases default? with
  | none => rfl
  | some value => simp [Node.move, Form.move, Extent.move, Span.move]

instance carries_sparseList {element : Parser Node} [element.CarriesNode σ] :
    (sparseList element).Carries σ (List.map (Option.map (Node.move σ))) := by
  refine .map fun slots => ?_
  rw [List.getLast?_map]
  cases slots.getLast? with
  | none => rfl
  | some last =>
    cases last with
    | none => exact List.map_dropLast.symm
    | some node => rfl

instance carries_arrayPattern : arrayPattern.CarriesNode σ :=
  carries_node (.map fun _ => by simp [Form.move])

instance carries_shorthandProperty : shorthandProperty.CarriesNode σ := by
  refine carries_node (.map₂ fun id default? => ?_)
  cases default? with
  | none => simp [Form.move]
  | some value => simp [Form.move, Node.move, Span.move]

instance carries_keyedTarget : keyedTarget.CarriesNode σ :=
  carries_node (.map₂ fun _ _ => by simp [Form.move])

instance carries_objectPattern : objectPattern.CarriesNode σ :=
  carries_node (.map fun _ => by simp [Form.move])

instance carries_identifierNode : (Ident.node <$> identifier : Parser Node).CarriesNode σ :=
  .map fun id => id.node_move σ

instance carries_bindingTargetBody : bindingTargetBody.CarriesNode σ := .choice

/-! ## Functions -/

instance carries_params : params.Carries σ (List.map (Node.move σ)) := carries_parenthesized

instance carries_block : block.CarriesNode σ := carries_node (.map fun _ => by simp [Form.move])

instance carries_isSome [part.Carries σ act] :
    (Option.isSome <$> .optional part : Parser Bool).Carries σ id :=
  .map fun value? => by cases value? <;> rfl

instance carries_generatorStar : generatorStar.Carries σ id := carries_isSome

instance carries_accessor : accessor.Carries σ (Option.map id) := .optional

theorem methodFunction_move (isAsync generator : Bool) (params : Extent × List Node) (body : Node) :
    methodFunction isAsync generator (params.map (Extent.move σ) (List.map (Node.move σ)))
        (body.move σ) = (methodFunction isAsync generator params body).move σ := by
  simp [methodFunction, Node.move, Form.move, Extent.move, Span.move]

instance carries_functionOf (role : Role) {name : Parser (Option Ident)}
    [name.Carries σ (Option.map (Ident.move σ))] : (functionOf role name).CarriesNode σ :=
  carries_node (.map₅ fun _ _ _ _ _ => by simp [Form.move])

/-! ## What follows a called or accessed expression -/

namespace Tail

def move (σ : Nat → Nat) : Tail → Tail
  | .member property computed => .member (property.move σ) computed
  | .call arguments => .call (arguments.map (Node.move σ))
  | .template quasi => .template (quasi.move σ)

end Tail

theorem applyTail_move (callee : Node) (tail : Extent × Tail) :
    applyTail (callee.move σ) (tail.map (Extent.move σ) (Tail.move σ))
      = (applyTail callee tail).move σ := by
  obtain ⟨extent, tail⟩ := tail
  cases tail <;> simp [applyTail, Tail.move, Node.move, Form.move, Extent.move, Span.move]

theorem foldl_applyTail_move (callee : Node) (tails : List (Extent × Tail)) :
    (tails.map (Prod.map (Extent.move σ) (Tail.move σ))).foldl applyTail (callee.move σ)
      = (tails.foldl applyTail callee).move σ := by
  induction tails generalizing callee with
  | nil => rfl
  | cons tail rest ih => rw [List.map_cons, List.foldl_cons, List.foldl_cons, applyTail_move, ih]

instance carries_spreadElement :
    (node (.spreadElement <$> (symbol "..." *> assignment))).CarriesNode σ :=
  carries_node (.map fun _ => by rw [Form.move])

instance carries_spreadOrAssignment : spreadOrAssignment.CarriesNode σ := .choice

instance carries_arguments : arguments.Carries σ (List.map (Node.move σ)) := carries_parenthesized

instance carries_callArguments : (Tail.call <$> arguments : Parser Tail).Carries σ (Tail.move σ) :=
  .map fun _ => rfl

instance carries_dotMember : dotMember.Carries σ (Tail.move σ) :=
  .map fun id => by rw [Ident.node_move]; rfl

instance carries_computedMember : computedMember.Carries σ (Tail.move σ) := .map fun _ => rfl

instance carries_template : (Tail.template <$> templateLiteral : Parser Tail).Carries σ (Tail.move σ) :=
  .map fun _ => rfl

instance carries_callTail : callTail.Carries σ (Tail.move σ) := .choice

/-! ## Decorators and classes -/

instance carries_decorator : decorator.CarriesNode σ := by
  refine carries_node (.map₃ fun id members arguments => ?_)
  have tails : members.map (Prod.map (Extent.move σ) (Tail.move σ))
        ++ (arguments.map (Prod.map (Extent.move σ) (Tail.move σ))).toList
      = (members ++ arguments.toList).map (Prod.map (Extent.move σ) (Tail.move σ)) := by
    cases arguments <;> simp
  rw [tails, Ident.node_move, foldl_applyTail_move, Form.move]

instance carries_staticMark : staticMark.Carries σ id := carries_isSome

theorem keyIs_move (name : String) (key : Node) : keyIs name (key.move σ) = keyIs name key := by
  obtain ⟨span, form⟩ := key
  rw [Node.move]
  cases form with
  | literal value raw => cases value <;> rw [Form.move] <;> rfl
  | _ => rw [Form.move]; rfl

theorem methodKind_move (accessor : Option String) (isStatic : Bool) (key : Node × Bool) :
    methodKind accessor isStatic (key.map (Node.move σ) id) = methodKind accessor isStatic key := by
  simp [methodKind, keyIs_move]

instance carries_methodDefinition : methodDefinition.CarriesNode σ := by
  -- Seven parts: the first five are put together before the parameters and the body.
  refine carries_node ⟨.next (.next (.next (.next (.next (.next (.start ?_))))))⟩
  intro decorators isStatic accessor generator key params body
  simp [Form.move, methodFunction_move, methodKind_move]

instance carries_classProperty : classProperty.CarriesNode σ :=
  carries_node (.ahead (.map₄ fun _ _ _ _ => by simp [Form.move]))

instance carries_classMember : classMember.Carries σ (Option.map (Node.move σ)) :=
  .orElse (.map fun _ => rfl) (.orElse (.map fun _ => rfl) (.map fun _ => rfl))

instance carries_classBody : classBody.CarriesNode σ := by
  refine carries_node (.map fun members => ?_)
  rw [Form.move, moveAll_eq_map, List.filterMap_map, List.map_filterMap]
  rfl

instance carries_classOf (role : Role) {name : Parser (Option Ident)}
    [name.Carries σ (Option.map (Ident.move σ))] : (classOf role name).CarriesNode σ :=
  carries_node (.map₄ fun _ _ _ _ => by simp [Form.move])

/-! ## Markup -/

instance carries_tagPart : tagPart.Carries σ (Ident.move σ) := carries_nameOf

instance carries_namespacedName : namespacedName.Carries σ (TagName.move σ) :=
  .ahead (.map₂ fun _ _ => rfl)

theorem foldl_member_move (object : TagName) (properties : List Ident) :
    (properties.map (Ident.move σ)).foldl .member (object.move σ)
      = (properties.foldl .member object).move σ := by
  induction properties generalizing object with
  | nil => rfl
  | cons property rest ih => exact ih (.member object property)

instance carries_memberName : memberName.Carries σ (TagName.move σ) :=
  .ahead (.map₃ fun object first rest => foldl_member_move (.simple object) (first :: rest))

instance carries_simpleName : simpleName.Carries σ (TagName.move σ) := .ahead (.map fun _ => rfl)

instance carries_elementName : elementName.Carries σ (TagName.move σ) := .choice

instance carries_markup : markup.CarriesNode σ := .before

instance carries_container : container.CarriesNode σ := carries_node (.map fun _ => by rw [Form.move])

instance carries_attributeString : attributeString.CarriesNode σ :=
  carries_node (.map fun _ => by rw [Form.move]; rfl)

instance carries_attributeValue : attributeValue.CarriesNode σ := .after

instance carries_attribute : attribute_.CarriesNode σ :=
  .orElse (carries_node (.map fun _ => by rw [Form.move]))
    (carries_node (.map₂ fun _ _ => by simp [Form.move]))

instance carries_tagHead :
    tagHead.Carries σ (Prod.map (TagName.move σ) (List.map (Node.move σ))) := .pair

instance carries_selfClosingElement : selfClosingElement.CarriesNode σ := by
  refine .map ?_
  rintro ⟨extent, name, attributes⟩
  simp [Node.move, Form.move, Extent.move, Span.move]

instance carries_openingTag : openingTag.Carries σ (Prod.map (TagName.move σ) (Node.move σ)) := by
  refine .map ?_
  rintro ⟨extent, name, attributes⟩
  simp [Node.move, Form.move, Extent.move, Span.move]

instance carries_closingTag : closingTag.Carries σ (Prod.map (TagName.move σ) (Node.move σ)) := by
  refine .map ?_
  rintro ⟨extent, name⟩
  simp [Node.move, Form.move, Extent.move, Span.move]

instance carries_childBody : childBody.Carries σ (Sum.map (Node.move σ) (Node.move σ)) :=
  .orElse (.map fun _ => rfl) (.map fun _ => rfl)

instance carries_childContainer : childContainer.CarriesNode σ := by
  refine carries_node (.ahead (.map₂ fun blank body => ?_))
  cases body with
  | none => simp [Form.move, Node.move, Extent.move, Span.move]
  | some body => cases body <;> simp [Form.move]

instance carries_child : child.CarriesNode σ :=
  .orElse (carries_node (.map fun _ => by rw [Form.move]; rfl)) inferInstance

instance carries_fullElement : fullElement.CarriesNode σ := by
  have parts : ((fun opening children closing => (opening, children, closing)) <$>
      openingTag <*> .many child <*> closingTag).Carries σ
      (Prod.map (Prod.map (TagName.move σ) (Node.move σ)) (Prod.map (List.map (Node.move σ))
        (Prod.map (TagName.move σ) (Node.move σ)))) :=
    .map₃ fun _ _ _ => rfl
  refine carries_node (parts.check ?_)
  rintro ⟨⟨name, opening⟩, children, closingName, closing⟩
  simp only [Prod.map, TagName.render_move]
  split
  · show Form.jsxElement _ _ _ = Form.move σ _
    simp [Form.move]
  · trivial

instance carries_jsxElementBody : jsxElementBody.CarriesNode σ := .choice

instance carries_jsxFragmentBody : jsxFragmentBody.CarriesNode σ :=
  carries_node (.map fun _ => by simp [Form.move])

end TemplateLint.Grammar
