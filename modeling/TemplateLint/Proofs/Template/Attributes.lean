import TemplateLint.Proofs.Syntax.Places
import TemplateLint.Template.Resolver

/-!
# The binding attributes of a document

What a binding attribute is can be read off its place (`eq_of_place_eq`). Which names an element
binds is said by `ElementBinds`, in terms of its last attributes named `as` and `for`. A name is
bound around a place exactly if an element around it binds the name
(`any_enclosingAttributes_iff`), so a reference that no scope declares is in order unless it is
`Undefined` (`undefined_iff`).
-/

namespace TemplateLint.Template

open TemplateLint.Syntax TemplateLint.Scope TemplateLint.Decorator

/-! ## The attributes of a tag -/

/-- What a binding attribute binds, by its binder and the kind of its tag. -/
def formOf (kind : TagKind) : Binder → BindingForm
  | .forEach => .iteration
  | .as => .ofTagKind kind

/-- A binding attribute stands in the opening tag at a place. -/
structure BindingAttribute.BelongsTo (site : BindingAttribute) (opening : Path) (tag : TagName)
    (attributes : List Node) : Prop where
  stands : ∃ index, site.place = opening.item .attributes index
    ∧ attributes[index]? = some site.node
  named : attributeName? site.node = some site.binder.text
  value : site.value? = attributeValue? site.node
  form : site.form = formOf (.ofTag tag) site.binder

section Tags

variable {opening : Path} {binder : Binder} {form : BindingForm} {tag : TagName}
  {attributes : List Node} {site : BindingAttribute}

theorem mem_attributesNamed (member : site ∈ attributesNamed opening binder form attributes) :
    site.binder = binder ∧ site.form = form ∧ site.value? = attributeValue? site.node
      ∧ attributeName? site.node = some binder.text
      ∧ ∃ index, site.place = opening.item .attributes index
        ∧ attributes[index]? = some site.node := by
  obtain ⟨⟨node, index⟩, listed, found⟩ := List.mem_filterMap.1 member
  have stands := List.mem_zipIdx_iff_getElem?.1 listed
  by_cases named : attributeName? node = some binder.text
  · simp only [named, beq_self_eq_true, if_true, Option.some.injEq] at found
    subst found
    exact ⟨rfl, rfl, rfl, named, index, rfl, stands⟩
  · simp [named] at found

theorem belongsTo_of_mem_attributesNamed
    (member : site ∈ attributesNamed opening binder form attributes)
    (fits : form = formOf (.ofTag tag) binder) : site.BelongsTo opening tag attributes := by
  obtain ⟨rfl, rfl, value, named, stands⟩ := mem_attributesNamed member
  exact ⟨stands, named, value, fits⟩

theorem belongsTo_of_mem_checkedAttributes {span : Span} {selfClosing : Bool}
    (member : site ∈ checkedAttributes opening ⟨span, .jsxOpening tag attributes selfClosing⟩) :
    site.BelongsTo opening tag attributes := by
  have last : ∀ {binder form}, form = formOf (.ofTag tag) binder →
      site ∈ (attributesNamed opening binder form attributes).getLast?.toList →
      site.BelongsTo opening tag attributes := by
    intro binder form fits member
    exact belongsTo_of_mem_attributesNamed
      (List.mem_of_getLast? (Option.mem_toList.1 member)) fits
  cases kind : TagKind.ofTag tag with
  | member =>
    simp only [checkedAttributes, kind] at member
    exact belongsTo_of_mem_attributesNamed member (by rw [kind]; rfl)
  | repetition =>
    simp only [checkedAttributes, bindingAttributes, kind, List.mem_append] at member
    rcases member with iterated | named
    · exact last rfl iterated
    · exact last (by rw [kind]; rfl) named
  | naming | generic =>
    simp only [checkedAttributes, bindingAttributes, kind] at member
    exact last (by rw [kind]; rfl) member

theorem Binder.text_injective {first second : Binder} (same : first.text = second.text) :
    first = second := by
  cases first <;> cases second <;> first | rfl | simp [Binder.text] at same

theorem BindingAttribute.BelongsTo.unique {other : BindingAttribute}
    (here : site.BelongsTo opening tag attributes) (there : other.BelongsTo opening tag attributes)
    (same : site.place = other.place) : site = other := by
  obtain ⟨index, place, found⟩ := here.stands
  obtain ⟨index', place', found'⟩ := there.stands
  have sameIndex : index = index' := by
    rw [place, place'] at same
    exact congrArg Step.index (List.cons.inj same).1
  subst sameIndex
  have sameNode : site.node = other.node := Option.some.inj (found.symm.trans found')
  have sameBinder : site.binder = other.binder := by
    apply Binder.text_injective
    apply Option.some.inj
    rw [← here.named, ← there.named, sameNode]
  obtain ⟨binder, form, path, node, value⟩ := site
  obtain ⟨binder', form', path', node', value'⟩ := other
  obtain rfl : binder = binder' := sameBinder
  obtain rfl : node = node' := sameNode
  obtain rfl : path = path' := same
  obtain rfl : form = form' := here.form.trans there.form.symm
  obtain rfl : value = value' := here.value.trans there.value.symm
  rfl

theorem mem_checkedAttributes_of_bindingAttributes {node : Node}
    (member : site ∈ bindingAttributes opening node) : site ∈ checkedAttributes opening node := by
  obtain ⟨span, form⟩ := node
  cases form with
  | jsxOpening tag attributes selfClosing =>
    cases kind : TagKind.ofTag tag with
    | member => simp [bindingAttributes, kind] at member
    | _ =>
      rw [checkedAttributes, kind]
      exact member
  | _ => cases member

end Tags

/-! ## The attributes of a document -/

section Documents

variable {tree : Tree} (view : tree.IsView) {site other : BindingAttribute}

include view

theorem mem_documentAttributes_iff :
    site ∈ documentAttributes tree ↔ ∃ opening node,
      tree.nodeAt? opening = some node ∧ site ∈ checkedAttributes opening node := by
  rw [documentAttributes, List.mem_flatMap]
  constructor
  · rintro ⟨⟨opening, below⟩, listed, member⟩
    have found := (Tree.mem_places_iff view opening below).1 listed
    exact ⟨opening, below.node, by rw [Tree.nodeAt?, found]; rfl, member⟩
  · rintro ⟨opening, node, found, member⟩
    obtain ⟨below, foundBelow, rfl⟩ := Option.map_eq_some_iff.1 found
    exact ⟨(opening, below), (Tree.mem_places_iff view opening below).2 foundBelow, member⟩

theorem exists_belongsTo (member : site ∈ documentAttributes tree) :
    ∃ opening span tag attributes selfClosing,
      tree.nodeAt? opening = some ⟨span, .jsxOpening tag attributes selfClosing⟩
        ∧ site.BelongsTo opening tag attributes := by
  obtain ⟨opening, ⟨span, form⟩, found, member⟩ := (mem_documentAttributes_iff view).1 member
  cases form with
  | jsxOpening tag attributes selfClosing =>
    exact ⟨opening, span, tag, attributes, selfClosing, found,
      belongsTo_of_mem_checkedAttributes member⟩
  | _ => cases member

/-- **The place of an attribute settles what it is.** -/
theorem eq_of_place_eq (here : site ∈ documentAttributes tree)
    (there : other ∈ documentAttributes tree) (same : site.place = other.place) :
    site = other := by
  obtain ⟨opening, span, tag, attributes, _, found, belongs⟩ := exists_belongsTo view here
  obtain ⟨opening', span', tag', attributes', _, found', belongs'⟩ := exists_belongsTo view there
  obtain ⟨index, place, _⟩ := belongs.stands
  obtain ⟨index', place', _⟩ := belongs'.stands
  have sameOpening : opening = opening' := by
    rw [place, place'] at same
    exact (List.cons.inj same).2
  subst sameOpening
  obtain ⟨rfl, rfl⟩ : tag = tag' ∧ attributes = attributes' := by
    have sameForm := congrArg Node.form (Option.some.inj (found.symm.trans found'))
    simp only [Node.form, Form.jsxOpening.injEq] at sameForm
    exact ⟨sameForm.1, sameForm.2.1⟩
  exact belongs.unique belongs' same

theorem mem_documentAttributes_of_element {place : Path}
    (member : site ∈ elementAttributes tree place) :
    site ∈ documentAttributes tree := by
  rw [elementAttributes] at member
  split at member
  next span opening children closing found =>
    refine (mem_documentAttributes_iff view).2 ⟨_, opening, ?_,
      mem_checkedAttributes_of_bindingAttributes member⟩
    have listed : (⟨.openingElement, 0⟩, opening.tree)
        ∈ (Node.tree ⟨span, .jsxElement opening children closing⟩).children := by
      rw [Node.tree, Form.fields]
      exact List.mem_cons_self
    rw [Path.child, Tree.nodeAt?_cons view found listed, Node.node_tree]
  next => cases member

/-- **The attributes around a place are checked with the document.** -/
theorem mem_documentAttributes_of_enclosing {place : Path}
    (member : site ∈ enclosingAttributes tree place) :
    site ∈ documentAttributes tree := by
  induction place with
  | nil => cases member
  | cons step outer ih =>
    rcases List.mem_append.1 member with here | further
    · exact mem_documentAttributes_of_element view here
    · exact ih further

end Documents

/-! ## Bound names -/

/-- A name that an expression gives: an identifier gives its own, and exactly two identifiers in
a row give theirs. -/
inductive Gives : Node → String → Prop where
  | name (span : Span) (name : String) : Gives ⟨span, .identifier name⟩ name
  | first (span here there : Span) (first second : String) :
      Gives ⟨span, .sequence [⟨here, .identifier first⟩, ⟨there, .identifier second⟩]⟩ first
  | second (span here there : Span) (first second : String) :
      Gives ⟨span, .sequence [⟨here, .identifier first⟩, ⟨there, .identifier second⟩]⟩ second

/-- The last attribute of a name, which is the one that counts. -/
def lastNamed? (name : String) (attributes : List Node) : Option Node :=
  (attributes.filter fun item => attributeName? item == some name).getLast?

/-- An element binds a name: by the value of its last `as`, or, if it is a `repeat`, by what
stands before `in` in its last `for`. An element whose tag is a member of an object binds
nothing. -/
inductive ElementBinds : Node → String → Prop where
  | as {span opening : Span} {tag : TagName} {attributes children : List Node}
      {selfClosing : Bool} {closing : Option Node} {item value : Node} {name : String}
      (plain : tag.isMember = false) (last : lastNamed? "as" attributes = some item)
      (holds : attributeValue? item = some value) (gives : Gives value name) :
      ElementBinds
        ⟨span, .jsxElement ⟨opening, .jsxOpening tag attributes selfClosing⟩ children closing⟩ name
  | iterated {span opening inner : Span} {tag : Ident} {attributes children : List Node}
      {selfClosing : Bool} {closing : Option Node} {item left right : Node} {name : String}
      (repeats : tag.name = "repeat") (last : lastNamed? "for" attributes = some item)
      (holds : attributeValue? item = some ⟨inner, .binary left .inside right⟩)
      (gives : Gives left name) :
      ElementBinds
        ⟨span, .jsxElement ⟨opening, .jsxOpening (.simple tag) attributes selfClosing⟩ children
          closing⟩ name

theorem gives_iff (node : Node) (name : String) :
    Gives node name ↔ ∃ names, names? node = some names ∧ name ∈ names.toList := by
  constructor
  · intro gives
    cases gives with
    | name | first | second => exact ⟨_, rfl, by simp [Names.toList]⟩
  · rintro ⟨names, found, member⟩
    rw [names?.eq_def] at found
    split at found
    · cases found
      obtain rfl : name = _ := by simpa [Names.toList] using member
      exact .name ..
    · cases found
      obtain rfl | rfl : name = _ ∨ name = _ := by simpa [Names.toList] using member
      · exact .first ..
      · exact .second ..
    · cases found

theorem BoundNames.binds_ofForm (form : BindingForm) (names : Names) (name : String) :
    (BoundNames.ofForm form names).binds name = true ↔ name ∈ names.toList := by
  obtain ⟨first, second⟩ := names
  cases form <;> cases second <;> simp [BoundNames.ofForm, BoundNames.binds, BoundNames.toList,
    Names.toList]

theorem BindingAttribute.binds_iff (site : BindingAttribute) (name : String) :
    site.binds name = true ↔ ∃ target, site.target? = some target ∧ Gives target name := by
  simp only [BindingAttribute.binds, BindingAttribute.bound?, BindingAttribute.names?,
    Option.any_map, Option.any_eq_true, Option.bind_eq_some_iff,
    BoundNames.binds_ofForm, gives_iff]
  constructor
  · rintro ⟨names, ⟨target, found, given⟩, member⟩
    exact ⟨target, found, names, given, member⟩
  · rintro ⟨target, found, names, given, member⟩
    exact ⟨names, ⟨target, found, given⟩, member⟩

section Elements

variable {opening : Path} {binder : Binder} {form : BindingForm} {attributes : List Node}

theorem map_node_attributesNamed (opening : Path) (binder : Binder) (form : BindingForm)
    (attributes : List Node) :
    (attributesNamed opening binder form attributes).map BindingAttribute.node
      = attributes.filter fun item => attributeName? item == some binder.text := by
  rw [attributesNamed]
  generalize 0 = index
  induction attributes generalizing index with
  | nil => rfl
  | cons item rest ih =>
    rw [List.zipIdx_cons, List.filterMap_cons, List.filter_cons]
    by_cases named : attributeName? item = some binder.text
    · simpa [named] using ih (index + 1)
    · simpa [named] using ih (index + 1)

theorem exists_last_iff {holds : BindingAttribute → Prop} {holdsNode : Node → Prop}
    (agree : ∀ site ∈ attributesNamed opening binder form attributes,
      (holds site ↔ holdsNode site.node)) :
    (∃ site ∈ (attributesNamed opening binder form attributes).getLast?.toList, holds site)
      ↔ ∃ item, lastNamed? binder.text attributes = some item ∧ holdsNode item := by
  rw [lastNamed?, ← map_node_attributesNamed opening binder form, List.getLast?_map]
  cases last : (attributesNamed opening binder form attributes).getLast? with
  | none => simp
  | some site =>
    have agreeHere := agree site (List.mem_of_getLast? last)
    simp [agreeHere]

theorem exists_last_as_iff (name : String) :
    (∃ site ∈ (attributesNamed opening .as form attributes).getLast?.toList,
        site.binds name = true)
      ↔ ∃ item, lastNamed? "as" attributes = some item
        ∧ ∃ value, attributeValue? item = some value ∧ Gives value name := by
  refine exists_last_iff fun site member => ?_
  obtain ⟨binder, _, value, _⟩ := mem_attributesNamed member
  have target : site.target? = attributeValue? site.node := by
    rw [BindingAttribute.target?, binder, value]
  rw [BindingAttribute.binds_iff, target]

theorem exists_last_for_iff (name : String) :
    (∃ site ∈ (attributesNamed opening .forEach form attributes).getLast?.toList,
        site.binds name = true)
      ↔ ∃ item, lastNamed? "for" attributes = some item
        ∧ ∃ inner left right, attributeValue? item = some ⟨inner, .binary left .inside right⟩
          ∧ Gives left name := by
  refine exists_last_iff fun site member => ?_
  obtain ⟨binder, _, value, _⟩ := mem_attributesNamed member
  rw [BindingAttribute.binds_iff, BindingAttribute.target?, binder, value]
  constructor
  · rintro ⟨target, found, gives⟩
    split at found
    next inner left right _ holds =>
      obtain rfl := Option.some.inj found
      exact ⟨inner, left, right, holds, gives⟩
    next => cases found
    next _ impossible => cases impossible
  · rintro ⟨inner, left, right, holds, gives⟩
    exact ⟨left, by rw [holds], gives⟩

theorem TagKind.ofTag_eq_member_iff (tag : TagName) :
    TagKind.ofTag tag = .member ↔ tag.isMember = true := by
  unfold TagKind.ofTag
  constructor
  · intro kind
    by_contra plain
    simp only [plain, if_false] at kind
    split at kind
    · cases kind
    · split at kind <;> cases kind
  · intro plain
    rw [if_pos plain]

theorem TagKind.ofTag_eq_repetition_iff (tag : TagName) :
    TagKind.ofTag tag = .repetition ↔ ∃ id, tag = .simple id ∧ id.name = "repeat" := by
  cases tag with
  | simple id =>
    by_cases repeats : id.name = "repeat"
    · simp [TagKind.ofTag, TagName.isMember, TagName.render, repeats]
    · simp only [TagKind.ofTag, TagName.isMember, TagName.render, repeats, beq_iff_eq,
        Bool.false_eq_true, if_false, TagName.simple.injEq, exists_eq_left', iff_false]
      split <;> simp
  | namespaced space name =>
    -- A name in a namespace holds a colon, and `repeat` holds none.
    have differs : space.name ++ ":" ++ name.name ≠ "repeat" := by
      intro same
      have letters := congrArg String.toList same
      have colon : ':' ∈ "repeat".toList := by
        rw [← letters]
        simp
      exact absurd colon (by decide)
    simp only [TagKind.ofTag, TagName.isMember, TagName.render, differs, beq_iff_eq,
      Bool.false_eq_true, if_false, reduceCtorEq, false_and, exists_false, iff_false]
    split <;> simp
  | member object property => simp [TagKind.ofTag, TagName.isMember]

theorem exists_binds_bindingAttributes_iff (span opening : Span) (place : Path) (tag : TagName)
    (attributes children : List Node) (selfClosing : Bool) (closing : Option Node)
    (name : String) :
    (∃ site ∈ bindingAttributes place ⟨opening, .jsxOpening tag attributes selfClosing⟩,
        site.binds name = true)
      ↔ ElementBinds
        ⟨span, .jsxElement ⟨opening, .jsxOpening tag attributes selfClosing⟩ children closing⟩
        name := by
  have byAs : (∃ item, lastNamed? "as" attributes = some item
      ∧ ∃ value, attributeValue? item = some value ∧ Gives value name) →
      tag.isMember = false → ElementBinds
        ⟨span, .jsxElement ⟨opening, .jsxOpening tag attributes selfClosing⟩ children closing⟩
        name := by
    rintro ⟨item, last, value, holds, gives⟩ plain
    exact .as plain last holds gives
  cases kind : TagKind.ofTag tag with
  | member =>
    have isMember := (TagKind.ofTag_eq_member_iff tag).1 kind
    simp only [bindingAttributes, kind, List.not_mem_nil, false_and, exists_false, false_iff]
    rintro (⟨plain, _, _, _⟩ | _)
    · rw [isMember] at plain
      cases plain
    · cases isMember
  | repetition =>
    obtain ⟨id, rfl, repeats⟩ := (TagKind.ofTag_eq_repetition_iff tag).1 kind
    simp only [bindingAttributes, kind, List.mem_append, or_and_right, exists_or,
      exists_last_as_iff, exists_last_for_iff]
    constructor
    · rintro (⟨item, last, inner, left, right, holds, gives⟩ | named)
      · exact .iterated repeats last holds gives
      · exact byAs named rfl
    · rintro (⟨_, last, holds, gives⟩ | ⟨_, last, holds, gives⟩)
      · exact .inr ⟨_, last, _, holds, gives⟩
      · exact .inl ⟨_, last, _, _, _, holds, gives⟩
  | naming | generic =>
    have plain : tag.isMember = false := by
      rw [Bool.eq_false_iff, Ne, ← TagKind.ofTag_eq_member_iff, kind]
      exact TagKind.noConfusion
    have noRepeat : ¬ ∃ id, tag = .simple id ∧ id.name = "repeat" := by
      rw [← TagKind.ofTag_eq_repetition_iff, kind]
      exact TagKind.noConfusion
    simp only [bindingAttributes, kind, exists_last_as_iff]
    constructor
    · exact fun named => byAs named plain
    · rintro (⟨_, last, holds, gives⟩ | ⟨repeats, _, _, _⟩)
      · exact ⟨_, last, _, holds, gives⟩
      · exact absurd ⟨_, rfl, repeats⟩ noRepeat

end Elements

theorem any_elementAttributes_iff (tree : Tree) (place : Path) (name : String) :
    (elementAttributes tree place).any (·.binds name) = true
      ↔ ∃ element, tree.nodeAt? place = some element ∧ ElementBinds element name := by
  rw [List.any_eq_true, elementAttributes]
  split
  next span opening children closing found =>
    simp only [found, Option.some.injEq, exists_eq_left']
    obtain ⟨inner, form⟩ := opening
    cases form with
    | jsxOpening tag attributes selfClosing => exact exists_binds_bindingAttributes_iff ..
    | _ =>
      simp only [bindingAttributes, List.not_mem_nil, false_and, exists_false, false_iff]
      intro binds
      cases binds
  next other =>
    simp only [List.not_mem_nil, false_and, exists_false, false_iff]
    rintro ⟨element, found, binds⟩
    cases binds <;> exact other _ _ _ _ found

/-! ## References -/

/-- The outer place is an ancestor of the other. -/
def Encloses (outer place : Path) : Prop := ∃ inner, inner ≠ [] ∧ place = inner ++ outer

theorem encloses_cons_iff (outer rest : Path) (step : Step) :
    Encloses outer (step :: rest) ↔ outer = rest ∨ Encloses outer rest := by
  constructor
  · rintro ⟨inner, some, same⟩
    obtain ⟨first, others, rfl⟩ := List.exists_cons_of_ne_nil some
    obtain ⟨rfl, below⟩ := List.cons.inj same
    cases others with
    | nil => exact .inl below.symm
    | cons next others => exact .inr ⟨_, List.cons_ne_nil next others, below⟩
  · rintro (rfl | ⟨inner, _, rfl⟩)
    · exact ⟨[step], by simp, rfl⟩
    · exact ⟨step :: inner, by simp, rfl⟩

theorem not_encloses_nil (outer : Path) : ¬ Encloses outer [] := by
  rintro ⟨inner, some, same⟩
  exact some (List.append_eq_nil_iff.1 same.symm).1

/-- Nothing binds a reference that no scope declares, and it is not excused: operands of `typeof`
are, unless they are considered, and known decorators inside a decorator. -/
structure Undefined (document : Document) (considerTypeof : Bool) (reference : Occurrence) :
    Prop where
  considered : considerTypeof = false → ∀ span argument,
    document.tree.parent? reference.place ≠ some ⟨span, .unary "typeof" argument⟩
  undecorated : document.registry.isGlobal reference.id.name = true →
    ∀ outer span expression, Encloses outer reference.place →
      document.tree.nodeAt? outer ≠ some ⟨span, .decorator expression⟩
  unbound : ∀ outer element, Encloses outer reference.place →
    document.tree.nodeAt? outer = some element → ¬ ElementBinds element reference.id.name

section References

variable (tree : Tree) (place : Path)

/-- **A name is bound around a place exactly if an element around the place binds it.** -/
theorem any_enclosingAttributes_iff (name : String) :
    (enclosingAttributes tree place).any (·.binds name) = true
      ↔ ∃ outer, Encloses outer place
        ∧ ∃ element, tree.nodeAt? outer = some element ∧ ElementBinds element name := by
  induction place with
  | nil => simp [enclosingAttributes, not_encloses_nil]
  | cons step outer ih =>
    rw [enclosingAttributes, List.any_append, Bool.or_eq_true, ih, any_elementAttributes_iff]
    simp only [encloses_cons_iff, or_and_right, exists_or, exists_eq_left]

theorem isTypeofOperand_iff :
    isTypeofOperand tree place = true
      ↔ ∃ span argument, tree.parent? place = some ⟨span, .unary "typeof" argument⟩ := by
  unfold isTypeofOperand
  split
  next span operator argument found =>
    rw [found]
    constructor
    · intro isTypeof
      obtain rfl := beq_iff_eq.1 isTypeof
      exact ⟨span, argument, rfl⟩
    · rintro ⟨_, _, same⟩
      cases same
      rfl
  next other =>
    constructor
    · exact fun absurd => nomatch absurd
    · rintro ⟨span, argument, found⟩
      exact absurd found (other span "typeof" argument)

theorem mem_ancestors_iff (node : Node) :
    node ∈ tree.ancestors place
      ↔ ∃ outer, Encloses outer place ∧ tree.nodeAt? outer = some node := by
  induction place with
  | nil => simp [Tree.ancestors, not_encloses_nil]
  | cons step outer ih =>
    rw [Tree.ancestors, List.mem_append, ih, Option.mem_toList]
    simp only [encloses_cons_iff, or_and_right, exists_or, exists_eq_left]

theorem inDecorator_iff :
    inDecorator tree place = true ↔ ∃ outer span expression, Encloses outer place
      ∧ tree.nodeAt? outer = some ⟨span, .decorator expression⟩ := by
  rw [inDecorator, List.any_eq_true]
  constructor
  · rintro ⟨⟨span, form⟩, member, isDecorator⟩
    obtain ⟨outer, encloses, found⟩ := (mem_ancestors_iff tree place _).1 member
    cases form with
    | decorator expression => exact ⟨outer, span, expression, encloses, found⟩
    | _ => cases isDecorator
  · rintro ⟨outer, span, expression, encloses, found⟩
    exact ⟨_, (mem_ancestors_iff tree place _).2 ⟨outer, encloses, found⟩, rfl⟩

end References

/-- A reference is undefined exactly if it is not exempt and no attribute around it binds it. -/
theorem undefined_iff (document : Document) (considerTypeof : Bool) (reference : Occurrence) :
    (isExempt document considerTypeof reference
        || (enclosingAttributes document.tree reference.place).any (·.binds reference.id.name))
        = false
      ↔ Undefined document considerTypeof reference := by
  rw [isExempt, Bool.or_eq_false_iff, Bool.or_eq_false_iff, Bool.and_eq_false_imp,
    Bool.and_eq_false_imp, Bool.not_eq_true', ← Bool.not_eq_true (isTypeofOperand ..),
    ← Bool.not_eq_true (inDecorator ..), ← Bool.not_eq_true (List.any ..), isTypeofOperand_iff,
    inDecorator_iff, any_enclosingAttributes_iff]
  constructor
  · rintro ⟨⟨considered, undecorated⟩, unbound⟩
    refine ⟨?_, ?_, ?_⟩
    · intro ignored span argument found
      exact considered ignored ⟨span, argument, found⟩
    · intro known outer span expression encloses found
      exact undecorated known ⟨outer, span, expression, encloses, found⟩
    · intro outer element encloses found binds
      exact unbound ⟨outer, encloses, element, found, binds⟩
  · rintro ⟨considered, undecorated, unbound⟩
    refine ⟨⟨?_, ?_⟩, ?_⟩
    · rintro ignored ⟨span, argument, found⟩
      exact considered ignored span argument found
    · rintro known ⟨outer, span, expression, encloses, found⟩
      exact undecorated known outer span expression encloses found
    · rintro ⟨outer, encloses, element, found, binds⟩
      exact unbound outer element encloses found binds

instance (document : Document) (considerTypeof : Bool) (reference : Occurrence) :
    Decidable (Undefined document considerTypeof reference) :=
  decidable_of_iff _ (undefined_iff document considerTypeof reference)

end TemplateLint.Template
