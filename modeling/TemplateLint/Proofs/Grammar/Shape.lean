import TemplateLint.Grammar.Parse
import TemplateLint.Proofs.Grammar.Ensures
import TemplateLint.Proofs.Syntax.Tidy

/-!
# What the productions read

What the grammar reads has the shape it should have, and is tidy. A binding target is a pattern
whose identifiers are declared, a statement can stand where a statement can, and every other rule
reads an expression (`shapes`). Each production keeps to this, given that the rules in it do.
-/

namespace TemplateLint.Grammar

open TemplateLint.Syntax Peg

/-! ## Lexemes -/

section Lexemes

variable {rules : Category → Node → Prop} {α : Type}

@[simp] theorem ensures_skip (part : Parser α) (post : Unit → Prop) :
    (skip part).Ensures rules post ↔ part.Ensures rules fun _ => post () := Iff.rfl

@[simp] theorem ensures_terminal (class_ : Terminal) (post : String → Prop) :
    Ensures rules (.terminal class_ : Parser String) post
      ↔ ∀ text, class_.Takes text → post text := Iff.rfl

@[simp] theorem ensures_trivia (post : Unit → Prop) :
    trivia.Ensures rules post ↔ post () := by
  have takes : Terminal.trivia.Takes "" := ⟨[], 0, rfl, rfl⟩
  simp only [trivia, ensures_skip, ensures_terminal]
  exact ⟨fun all => all "" takes, fun holds _ _ => holds⟩

@[simp] theorem ensures_lexeme (class_ : Terminal) (post : String → Prop) :
    (lexeme class_).Ensures rules post ↔ ∀ text, class_.Takes text → post text := by
  simp [lexeme]

@[simp] theorem ensures_mark (text : String) (post : Unit → Prop) :
    (mark text).Ensures rules post ↔ post () := by
  have takes : (Terminal.symbol text).Takes text :=
    ⟨text.toList, text.length, by simp [Terminal.scan],
      by rw [← String.length_toList, List.take_length, String.ofList_toList]⟩
  simp only [mark, ensures_skip, ensures_terminal]
  exact ⟨fun all => all text takes, fun holds _ _ => holds⟩

@[simp] theorem ensures_symbol (text : String) (post : Unit → Prop) :
    (symbol text).Ensures rules post ↔ post () := by
  simp [symbol]

@[simp] theorem ensures_optional (part : Parser α) (post : Option α → Prop) :
    Ensures rules (.optional part : Parser (Option α)) post
      ↔ post none ∧ part.Ensures rules fun value => post (some value) := Iff.rfl

@[simp] theorem ensures_located (part : Parser α) (post : Extent × α → Prop) :
    Ensures rules (.located part : Parser (Extent × α)) post
      ↔ part.Ensures rules fun value => ∀ extent, post (extent, value) := Iff.rfl

@[simp] theorem ensures_check {β : Type} (part : Parser α) (accept : α → Except SyntaxError β)
    (post : β → Prop) :
    Ensures rules (.check part accept : Parser β) post
      ↔ part.Ensures rules fun value => ∀ result, accept value = .ok result → post result := Iff.rfl

@[simp] theorem ensures_braced (part : Parser α) (post : α → Prop) :
    (braced part).Ensures rules post ↔ part.Ensures rules post := by
  simp [braced]

@[simp] theorem ensures_parenthesized (part : Parser α) (post : α → Prop) :
    (parenthesized part).Ensures rules post ↔ part.Ensures rules post := by
  simp [parenthesized]

@[simp] theorem ensures_bracketed (part : Parser α) (post : α → Prop) :
    (bracketed part).Ensures rules post ↔ part.Ensures rules post := by
  simp [bracketed]

@[simp] theorem ensures_node (form : Parser Form) (post : Node → Prop) :
    (node form).Ensures rules post ↔ form.Ensures rules fun form => ∀ extent : Extent,
      post ⟨⟨extent.start, extent.content⟩, form⟩ := Iff.rfl

theorem ensures_optional_forall {part : Parser α} {each : α → Prop}
    (holds : part.Ensures rules each) :
    Ensures rules (.optional part : Parser (Option α)) fun value? =>
      ∀ value ∈ value?, each value := by
  simp only [ensures_optional]
  exact ⟨by simp, holds.mono fun value holds => by simpa using holds⟩

theorem ensures_many {part : Parser α} {each : α → Prop} (copies : part.Ensures rules each) :
    Ensures rules (.many part : Parser (List α)) fun values => ∀ value ∈ values, each value :=
  ⟨each, copies, fun _ all => all⟩

theorem ensures_separated {part : Parser α} {each : α → Prop} (copies : part.Ensures rules each) :
    (separated part).Ensures rules fun values => ∀ value ∈ values, each value := by
  simp only [separated, ensures_map, ensures_seq]
  refine copies.mono fun first holds => ?_
  have further : (symbol "," *> part).Ensures rules each := by simpa using copies
  refine (ensures_many further).mono fun rest all value member => ?_
  rcases List.mem_cons.1 member with rfl | later
  · exact holds
  · exact all value later

theorem ensures_commaList {part : Parser α} {each : α → Prop} (copies : part.Ensures rules each) :
    (commaList part).Ensures rules fun values => ∀ value ∈ values, each value := by
  simp only [commaList, ensures_map, ensures_optional, ensures_seqLeft]
  refine ⟨by simp, (ensures_separated copies).mono fun values all => ?_⟩
  simpa using all

end Lexemes

/-! ## Turning targets into patterns -/

theorem toPattern_of_isNamedDefault {node : Node} (named : node.isNamedDefault = true) :
    toPattern node = node ∧ node.isTarget = true := by
  obtain ⟨span, form⟩ := node
  cases form with
  | assignmentPattern left right =>
    obtain ⟨inner, name⟩ := left
    cases name with
    | identifier => exact ⟨rfl, rfl⟩
    | _ => cases named
  | _ => cases named

theorem sound_property {key value : Node} {computed : Bool} (first : key.Sound)
    (plain : computed = false → key.isPlainKey = true) (second : value.Sound)
    (style : PropertyStyle) : (Form.property key value style computed).Sound :=
  Form.sound_of_parts plain trivial rfl (by simp [Form.fields, first, second])

theorem sound_restElement {argument : Node} (sound : argument.Sound) :
    (Form.restElement argument).Sound :=
  Form.sound_of_parts trivial trivial rfl (by simp [Form.fields, sound])

theorem sound_arrayPattern {elements : List (Option Node)}
    (sound : ∀ node, some node ∈ elements → node.Sound) : (Form.arrayPattern elements).Sound :=
  Form.sound_of_parts trivial trivial rfl (by simpa [Form.fields] using sound)

theorem sound_objectPattern {properties : List Node} (sound : ∀ node ∈ properties, node.Sound) :
    (Form.objectPattern properties).Sound :=
  Form.sound_of_parts trivial trivial rfl (by simpa [Form.fields] using sound)

theorem sound_assignmentPattern {left right : Node} (target : left.Sound) (value : right.Sound) :
    (Form.assignmentPattern left right).Sound :=
  Form.sound_of_parts trivial trivial rfl (by simp [Form.fields, target, value])

mutual

theorem sound_toPattern : (node : Node) → node.Whole →
    (toPattern node).Sound ∧ (toPattern node).isTarget = true
  | ⟨span, form⟩, ⟨alone, sound⟩ => by
    have here := ((Node.tidy_iff ..).1 sound.2.1).1.1
    cases form with
    | arrayExpression elements =>
      have parts := sound.parts fun _ => rfl
      simp only [Form.fields, Fields.all_treesOf?, Node.node_tree] at parts
      have targets := sound_toPatterns? elements fun node member =>
        ⟨here node member, parts node member⟩
      rw [toPattern]
      refine ⟨sound_arrayPattern (fun node member => (targets node member).1) span, ?_⟩
      rw [Node.isTarget, allTargets?_iff]
      exact fun node member => (targets node member).2
    | objectExpression properties =>
      have parts := sound.parts fun _ => rfl
      simp only [Form.fields, Fields.all_treesOf, Node.node_tree] at parts
      have targets := sound_propertyPatterns properties fun node member =>
        ⟨here node member, parts node member⟩
      rw [toPattern]
      refine ⟨sound_objectPattern (fun node member => (targets node member).1) span, ?_⟩
      rw [Node.isTarget, allTargets_iff]
      exact fun node member => (targets node member).2
    | spreadElement argument =>
      have parts := sound.parts fun _ => rfl
      simp only [Form.fields, Fields.all_one, Node.node_tree] at parts
      have target := sound_toPattern argument ⟨here, parts⟩
      rw [toPattern]
      exact ⟨sound_restElement target.1 span, target.2⟩
    | assignment left operator right =>
      cases operator with
      | plain =>
        have parts := sound.parts fun _ => rfl
        simp only [Form.fields, Fields.all_append, Fields.all_one, Fields.all_text,
          Node.node_tree, and_true] at parts
        rw [toPattern]
        -- the target of an inner assignment was turned into a pattern when it was read
        exact ⟨sound_assignmentPattern parts.1 parts.2 span, here⟩
      | compound => exact ⟨sound, rfl⟩
    | arrayPattern | objectPattern | assignmentPattern | restElement | property
    | variableDeclarator => cases alone
    | _ => exact ⟨sound, rfl⟩

theorem sound_toPatterns? : (elements : List (Option Node)) →
    (∀ node, some node ∈ elements → node.Whole) → ∀ node, some node ∈ toPatterns? elements →
      node.Sound ∧ node.isTarget = true
  | [], _, node, member => nomatch member
  | none :: rest, wholes, node, member => by
    rw [toPatterns?] at member
    refine sound_toPatterns? rest (fun other later => wholes other (.tail _ later)) node ?_
    simpa using member
  | some element :: rest, wholes, node, member => by
    rw [toPatterns?] at member
    rcases List.mem_cons.1 member with here | later
    · rw [Option.some.inj here]
      exact sound_toPattern element (wholes element (.head _))
    · exact sound_toPatterns? rest (fun other later => wholes other (.tail _ later)) node later

theorem sound_propertyPatterns : (properties : List Node) →
    (∀ node ∈ properties, node.isObjectMember = true ∧ node.Sound) →
    ∀ node ∈ propertyPatterns properties, node.Sound ∧ node.isTarget = true
  | [], _, node, member => nomatch member
  | ⟨span, form⟩ :: rest, members, node, member => by
    obtain ⟨belongs, sound⟩ := members _ (.head _)
    have others := sound_propertyPatterns rest fun other later => members other (.tail _ later)
    have here := ((Node.tidy_iff ..).1 sound.2.1).1.1
    cases form with
    | property key value style computed =>
      have built := ((Node.shaped_iff ..).1 sound.1.1).1
      have parts := sound.parts fun _ => rfl
      simp only [Form.fields, Fields.all_append, Fields.all_one, Fields.all_text, Fields.all_flag,
        Node.node_tree, and_true] at parts
      have target : (toPattern value).Sound ∧ (toPattern value).isTarget = true := by
        rcases Bool.or_eq_true_iff.1 belongs with alone | named
        · exact sound_toPattern value ⟨alone, parts.2⟩
        · obtain ⟨same, target⟩ := toPattern_of_isNamedDefault named
          exact same.symm ▸ ⟨parts.2, target⟩
      rw [propertyPatterns] at member
      rcases List.mem_cons.1 member with rfl | later
      · exact ⟨sound_property parts.1 built target.1 style span, target.2⟩
      · exact others node later
    | spreadElement argument =>
      have parts := sound.parts fun _ => rfl
      simp only [Form.fields, Fields.all_one, Node.node_tree] at parts
      have target := sound_toPattern argument ⟨here, parts⟩
      rw [propertyPatterns] at member
      rcases List.mem_cons.1 member with rfl | later
      · exact ⟨sound_restElement target.1 span, target.2⟩
      · exact others node later
    | _ => cases belongs

end

/-! ## What the rules read -/

/-- What is said of the nodes that each rule reads. -/
def shapes : Category → Node → Prop
  | .bindingTarget => Node.Target
  | .statement => Node.Stands
  | _ => Node.Whole

abbrev Peg.Wholes (part : Parser Node) : Prop := part.Ensures shapes Node.Whole

abbrev Peg.Fits (part : Parser Node) : Prop := part.Ensures shapes Node.Fit

theorem targets_bindingTarget : bindingTarget.Ensures shapes Node.Target := fun _ target => target

theorem wholes_callExpression : callExpression.Wholes := fun _ whole => whole

theorem wholes_assignment : assignment.Wholes := fun _ whole => whole

theorem wholes_expression : expression.Wholes := fun _ whole => whole

theorem stands_statement : statement.Ensures shapes Node.Stands := fun _ stands => stands

theorem wholes_node {form : Parser Form} (wholes : form.Ensures shapes Form.Whole) :
    (node form).Wholes :=
  wholes.mono fun _ whole _ => whole _

theorem Peg.Ensures.sounds {part : Parser Node} (wholes : part.Wholes) :
    part.Ensures shapes Node.Sound :=
  wholes.mono fun _ => And.right

/-! ## Literals, patterns and keys -/

theorem whole_literal (value : LiteralValue) (raw : String) : (Form.literal value raw).Whole :=
  Form.whole_of_parts trivial trivial rfl (by simp [Form.fields])

theorem wholes_literalOf (class_ : Terminal) (value? : List Char → Option LiteralValue) :
    (literalOf class_ value?).Ensures shapes fun node => node.Whole ∧ node.isLiteral = true := by
  simp only [literalOf, ensures_node, ensures_check, ensures_lexeme]
  intro raw _ form accepted extent
  obtain ⟨value, _, rfl⟩ := Match.eq_ok_of_map_eq_ok accepted
  exact ⟨whole_literal value raw _, rfl⟩

theorem wholes_stringLiteral :
    stringLiteral.Ensures shapes fun node => node.Whole ∧ node.isLiteral = true :=
  wholes_literalOf ..

theorem wholes_literal : literal.Wholes := by
  simp only [literal, ensures_orElse]
  exact ⟨wholes_node (Ensures.anything.start fun raw _ => whole_literal _ raw),
    wholes_node (Ensures.anything.start fun raw _ => whole_literal _ raw),
    (wholes_literalOf _ _).mono fun _ => And.left, wholes_stringLiteral.mono fun _ => And.left⟩

theorem wholes_templateLiteral : templateLiteral.Wholes := by
  have part : templatePart.Ensures shapes fun part => ∀ node ∈ part.getRight?, node.Sound := by
    simp only [templatePart, ensures_orElse]
    exact ⟨Ensures.anything.start fun _ _ => by simp,
      wholes_expression.sounds.after.before.start fun value sound => by simpa using sound⟩
  refine wholes_node ((ensures_many part).after.before.start fun parts sound => ?_)
  refine Form.whole_of_parts trivial trivial rfl ?_
  simp only [Form.fields, Fields.all_append, Fields.all_texts, Fields.all_treesOf, true_and]
  intro node member
  obtain ⟨part, listed, found⟩ := List.mem_filterMap.1 member
  simpa using sound part listed node found

theorem wholes_initializer : initializer.Wholes := wholes_assignment.after

/-- A key that is not computed is a name or a literal. -/
def KeyShaped (key : Node × Bool) : Prop :=
  key.1.Sound ∧ (key.2 = false → key.1.isPlainKey = true)

theorem Ident.keyShaped (id : Ident) : KeyShaped (id.node, false) := ⟨id.sound_node, fun _ => rfl⟩

theorem isPlainKey_of_isLiteral {node : Node} (literal : node.isLiteral = true) :
    node.isPlainKey = true := by
  obtain ⟨span, form⟩ := node
  cases form <;> first | rfl | cases literal

theorem ensures_propertyKey : propertyKey.Ensures shapes KeyShaped := by
  have literal : ∀ key : Node, key.Whole ∧ key.isLiteral = true → KeyShaped (key, false) :=
    fun key literal => ⟨literal.1.2, fun _ => isPlainKey_of_isLiteral literal.2⟩
  simp only [propertyKey, ensures_orElse, ensures_map, ensures_bracketed]
  exact ⟨wholes_assignment.mono fun key whole => ⟨whole.2, fun computed => by cases computed⟩,
    .of_forall Ident.keyShaped _, wholes_stringLiteral.mono literal,
    (wholes_literalOf _ _).mono literal⟩

theorem target_assignmentPattern {left right : Node} (target : left.Target) (value : right.Sound)
    (span : Span) : Node.Target ⟨span, .assignmentPattern left right⟩ :=
  have sound := sound_assignmentPattern target.sound value span
  ⟨⟨sound.1.1, target.1.2⟩, sound.2.1⟩

theorem target_property {key value : Node} {computed : Bool} (shaped : KeyShaped (key, computed))
    (target : value.Target) (span : Span) (style : PropertyStyle) :
    Node.Target ⟨span, .property key value style computed⟩ :=
  have sound := sound_property shaped.1 shaped.2 target.sound style span
  ⟨⟨sound.1.1, target.1.2⟩, sound.2.1⟩

theorem targets_restTarget : restTarget.Ensures shapes Node.Target :=
  targets_bindingTarget.after.start fun _ bound _ =>
    have sound := sound_restElement bound.sound _
    ⟨⟨sound.1.1, bound.1.2⟩, sound.2.1⟩

theorem targets_bindingElement : bindingElement.Ensures shapes Node.Target := by
  simp only [bindingElement, ensures_map, ensures_located, ensures_seq, ensures_optional]
  refine targets_bindingTarget.mono fun target bound => ⟨fun _ => bound, ?_⟩
  exact wholes_initializer.sounds.mono fun value default extent =>
    target_assignmentPattern bound default _

theorem ensures_sparseList {rules : Category → Node → Prop} {element : Parser Node}
    {each : Node → Prop} (elements : element.Ensures rules each) :
    (sparseList element).Ensures rules fun slots => ∀ node, some node ∈ slots → each node := by
  simp only [sparseList, ensures_map, ensures_bracketed]
  refine (ensures_separated (ensures_optional_forall elements)).mono fun slots all node member => ?_
  have kept : some node ∈ slots := by
    split at member
    · exact List.dropLast_subset slots member
    · exact member
  exact all (some node) kept node rfl

theorem targets_element : (restTarget <|> bindingElement).Ensures shapes Node.Target :=
  ⟨targets_restTarget, targets_bindingElement⟩

theorem targets_arrayPattern : arrayPattern.Ensures shapes Node.Target := by
  refine (ensures_sparseList targets_element).start fun elements targets extent => ?_
  have sound := sound_arrayPattern fun node member => (targets node member).sound
  refine ⟨⟨(sound _).1.1, ?_⟩, (sound _).2.1⟩
  rw [Node.isBinding, allBinding?_iff]
  exact fun node member => (targets node member).1.2

theorem targets_shorthandProperty : shorthandProperty.Ensures shapes fun node =>
    node.Target ∧ node.isObjectMember = true := by
  simp only [shorthandProperty, ensures_node, ensures_seq, ensures_map, ensures_optional]
  refine .of_forall (fun id => ⟨fun extent => ⟨?_, rfl⟩, ?_⟩) _
  · exact target_property (Ident.keyShaped id) id.target_node _ _
  · refine wholes_initializer.sounds.mono fun value sound extent => ⟨?_, rfl⟩
    exact target_property (Ident.keyShaped id) (target_assignmentPattern id.target_node sound _) _ _

theorem targets_keyedTarget : keyedTarget.Ensures shapes Node.Target :=
  .map₂ ensures_propertyKey.before targets_bindingElement fun _ key _ value _ =>
    target_property key value _ _

theorem targets_objectPattern : objectPattern.Ensures shapes Node.Target := by
  have property : (restTarget <|> keyedTarget <|> shorthandProperty).Ensures shapes Node.Target :=
    ⟨targets_restTarget, targets_keyedTarget, targets_shorthandProperty.mono fun _ => And.left⟩
  simp only [objectPattern, ensures_node, ensures_map, ensures_braced]
  refine (ensures_commaList property).mono fun properties targets extent => ?_
  have sound := sound_objectPattern fun node member => (targets node member).sound
  refine ⟨⟨(sound _).1.1, ?_⟩, (sound _).2.1⟩
  rw [Node.isBinding, allBinding_iff]
  exact fun node member => (targets node member).1.2

theorem targets_bindingTargetBody : bindingTargetBody.Ensures shapes Node.Target := by
  simp only [bindingTargetBody, ensures_orElse]
  exact ⟨.of_forall Ident.target_node _, targets_arrayPattern, targets_objectPattern⟩

theorem targets_params : params.Ensures shapes fun params => ∀ param ∈ params, param.Target := by
  simp only [params, ensures_parenthesized]
  exact ensures_commaList targets_element

/-! ## Functions and classes -/

theorem fits_node {form : Parser Form} (fits : form.Ensures shapes Form.Fit) : (node form).Fits :=
  fits.mono fun _ fit _ => fit _

theorem Peg.Ensures.fits {part : Parser Node} (wholes : part.Wholes) : part.Fits :=
  wholes.mono fun _ => Node.Whole.fit

theorem Peg.Ensures.stands {part : Parser Node} (fits : part.Fits) :
    part.Ensures shapes Node.Stands :=
  fits.mono fun _ => Node.Fit.stands

theorem fits_block : block.Fits := by
  refine fits_node ?_
  simp only [ensures_map, ensures_braced]
  refine (ensures_many stands_statement).mono fun body stands => ?_
  refine Form.fit_of_held trivial trivial rfl ?_
  simpa [Form.fields] using fun node member => (stands node member).held rfl

theorem fit_function {params : List Node} {body : Node} (targets : ∀ param ∈ params, param.Target)
    (fit : body.Fit) (role : Role) (id : Option Ident) (isAsync generator : Bool) :
    (Form.function role id params body isAsync generator).Fit := by
  refine Form.fit_of_held (fun param member => (targets param member).1.2) trivial rfl ?_
  simp only [Form.fields, Fields.all_append, Fields.all_ident?, Fields.all_treesOf, Fields.all_one,
    Fields.all_flag, Ident.node_tree, Node.node_tree, and_true]
  exact ⟨⟨fun id _ => id.sound_node.held _ _, fun param member =>
    (targets param member).sound.held _ _⟩, fit.held (Bool.or_true _)⟩

/-- Functions and classes that are read in a role. -/
def FitsRole (role : Role) (node : Node) : Prop :=
  node.Fit ∧ node.form.canDeclare = (role == .declaration)

theorem FitsRole.whole {node : Node} (fits : FitsRole .expression node) : node.Whole :=
  fits.1.whole fits.2

theorem fitsRole_function {params : List Node} {body : Node}
    (targets : ∀ param ∈ params, param.Target) (fit : body.Fit) (role : Role) (id : Option Ident)
    (isAsync generator : Bool) (span : Span) :
    FitsRole role ⟨span, .function role id params body isAsync generator⟩ :=
  ⟨fit_function targets fit role id isAsync generator span, by cases role <;> rfl⟩

theorem fits_functionOf (role : Role) (name : Parser (Option Ident)) :
    (functionOf role name).Ensures shapes (FitsRole role) := by
  refine fits_block.next (targets_params.next (.map₃ .anything .anything .anything ?_))
  intro isAsync _ generator _ id _ params targets body fit extent
  exact fitsRole_function targets fit role id isAsync generator _

/-- The nodes in what follows a called expression are sound. -/
def Tail.Sound : Tail → Prop
  | .member property computed => KeyShaped (property, computed)
  | .call arguments => ∀ node ∈ arguments, node.Sound
  | .template quasi => quasi.Sound

theorem whole_applyTail {callee : Node} (whole : callee.Whole) {tail : Extent × Tail}
    (sound : tail.2.Sound) : (applyTail callee tail).Whole := by
  obtain ⟨extent, tail⟩ := tail
  cases tail with
  | member property computed =>
    have key : KeyShaped (property, computed) := sound
    have built : (Form.member callee property computed).Whole :=
      Form.whole_of_parts key.2 trivial rfl (by simp [Form.fields, whole.2, key.1])
    exact built _
  | call arguments =>
    have others : ∀ node ∈ arguments, node.Sound := sound
    have built : (Form.call callee arguments).Whole :=
      Form.whole_of_parts trivial trivial rfl (by simpa [Form.fields, whole.2] using others)
    exact built _
  | template quasi =>
    have last : quasi.Sound := sound
    have built : (Form.taggedTemplate callee quasi).Whole :=
      Form.whole_of_parts trivial trivial rfl (by simp [Form.fields, whole.2, last])
    exact built _

theorem whole_applyTails {head : Node} (whole : head.Whole) {tails : List (Extent × Tail)}
    (sound : ∀ tail ∈ tails, tail.2.Sound) : (tails.foldl applyTail head).Whole :=
  List.foldlRecOn tails applyTail whole fun _ before tail member =>
    whole_applyTail before (sound tail member)

theorem whole_spreadElement {argument : Node} (whole : argument.Whole) :
    (Form.spreadElement argument).Whole :=
  Form.whole_of_parts trivial whole.1 rfl (by simp [Form.fields, whole.2])

theorem wholes_spreadOrAssignment : spreadOrAssignment.Wholes :=
  ⟨wholes_node (wholes_assignment.after.start fun _ => whole_spreadElement), wholes_assignment⟩

theorem ensures_arguments :
    arguments.Ensures shapes fun arguments => ∀ node ∈ arguments, node.Sound := by
  simp only [arguments, ensures_parenthesized]
  exact ensures_commaList wholes_spreadOrAssignment.sounds

theorem ensures_dotMember : dotMember.Ensures shapes Tail.Sound :=
  .of_forall Ident.keyShaped (symbol "." *> anyName)

theorem ensures_computedMember : computedMember.Ensures shapes Tail.Sound := by
  simp only [computedMember, ensures_map, ensures_bracketed]
  exact wholes_expression.mono fun _ whole => ⟨whole.2, fun computed => by cases computed⟩

theorem ensures_callTail : callTail.Ensures shapes Tail.Sound :=
  ⟨ensures_arguments, ensures_dotMember, ensures_computedMember, wholes_templateLiteral.sounds⟩

theorem ensures_tails {tail : Parser Tail} (ensures : tail.Ensures shapes Tail.Sound) :
    Ensures shapes (.many (.located tail) : Parser (List (Extent × Tail))) fun tails =>
      ∀ tail ∈ tails, tail.2.Sound := by
  have located : Ensures shapes (.located tail : Parser (Extent × Tail)) fun tail =>
      tail.2.Sound := ensures.mono fun _ sound _ => sound
  exact ensures_many located

theorem wholes_decorator : decorator.Wholes := by
  have call : Ensures shapes (.located (Tail.call <$> arguments) : Parser (Extent × Tail))
      fun tail => tail.2.Sound := ensures_arguments.mono fun _ sound _ => sound
  refine wholes_node (.map₃ .anything (ensures_tails ensures_dotMember)
    (ensures_optional_forall call) ?_)
  intro id _ members first tail? last
  have whole : ((members ++ tail?.toList).foldl applyTail id.node).Whole := by
    refine whole_applyTails id.whole_node fun tail member => ?_
    rcases List.mem_append.1 member with member | member
    · exact first tail member
    · exact last tail (by simpa using member)
  refine Form.whole_of_parts trivial trivial rfl ?_
  simpa only [Form.fields, Fields.all_one, Node.node_tree] using whole.2

theorem ensures_decorators : Ensures shapes (.many decorator : Parser (List Node)) fun nodes =>
    ∀ node ∈ nodes, node.Sound :=
  ensures_many wholes_decorator.sounds

theorem targets_locatedParams : Ensures shapes (.located params : Parser (Extent × List Node))
    fun params => ∀ param ∈ params.2, param.Target :=
  targets_params.mono fun _ targets _ => targets

theorem wholes_methodDefinition : methodDefinition.Wholes := by
  refine wholes_node (fits_block.next (targets_locatedParams.next (ensures_propertyKey.next
    (Ensures.anything.next (.map₃ ensures_decorators .anything .anything ?_)))))
  intro decorators sound isStatic _ accessor _ generator _ key first params second body fit
  have value : (methodFunction (accessor == some "async") generator params body).Whole :=
    (fitsRole_function second fit _ _ _ _ _).whole
  refine Form.whole_of_parts first.2 trivial rfl ?_
  simpa [Form.fields, first.1, value.2] using sound

theorem wholes_classProperty : classProperty.Wholes := by
  refine wholes_node ((ensures_optional_forall wholes_initializer.sounds).next
    (.map₃ ensures_decorators .anything ensures_propertyKey ?_)).before
  intro decorators sound isStatic _ key first value second
  refine Form.whole_of_parts first.2 trivial rfl ?_
  simp only [Form.fields, Fields.all_append, Fields.all_treesOf, Fields.all_one,
    Fields.all_treeOf?, Fields.all_flag, Node.node_tree, and_true]
  exact ⟨⟨sound, first.1⟩, second⟩

theorem wholes_classBody : classBody.Wholes := by
  have member : classMember.Ensures shapes fun member => ∀ node ∈ member, node.Sound := by
    simp only [classMember, ensures_orElse]
    exact ⟨wholes_methodDefinition.sounds.start fun _ sound => by simpa using sound,
      wholes_classProperty.sounds.start fun _ sound => by simpa using sound,
      Ensures.anything.start fun _ _ => by simp⟩
  refine wholes_node ?_
  simp only [ensures_map, ensures_braced]
  refine (ensures_many member).mono fun members sound => Form.whole_of_parts trivial trivial rfl ?_
  simp only [Form.fields, Fields.all_treesOf, Node.node_tree]
  intro node listed
  obtain ⟨slot, inMembers, found⟩ := List.mem_filterMap.1 listed
  exact sound slot inMembers node found

theorem fitsRole_classDefinition {decorators : List Node} {superClass : Option Node} {body : Node}
    (first : ∀ node ∈ decorators, node.Sound) (second : ∀ node ∈ superClass, node.Sound)
    (last : body.Sound) (role : Role) (id : Option Ident) (span : Span) :
    FitsRole role ⟨span, .classDefinition role decorators id superClass body⟩ := by
  have fit : (Form.classDefinition role decorators id superClass body).Fit := by
    refine Form.fit_of_parts trivial trivial rfl ?_
    simp only [Form.fields, Fields.all_append, Fields.all_treesOf, Fields.all_ident?,
      Fields.all_treeOf?, Fields.all_one, Ident.node_tree, Node.node_tree]
    exact ⟨⟨⟨first, fun id _ => id.sound_node⟩, second⟩, last⟩
  exact ⟨fit span, by cases role <;> rfl⟩

theorem fits_classOf (role : Role) (name : Parser (Option Ident)) :
    (classOf role name).Ensures shapes (FitsRole role) := by
  refine wholes_classBody.next (.map₃ ensures_decorators.before .anything
    (ensures_optional_forall wholes_callExpression.sounds.after) ?_)
  intro decorators first id _ superClass second body last extent
  exact fitsRole_classDefinition first second last.2 role id _

end TemplateLint.Grammar
