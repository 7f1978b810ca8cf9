import TemplateLint.Proofs.Template.History

/-!
# The validation of a document

A validation looks at every attribute that any later question can look at (`Progress.Exhausted`), so
that from then on an operation hands out its findings about references and no other
(`answers_after_validation`).

A validation reports an attribute exactly if it is `Misused` and not `Overridden`
(`validate_reports_misused`): on a tag that is a member of an object every `as` is reported, and on
any other tag only the last (`validate_overridden_silent`).
-/

namespace TemplateLint.Template

open TemplateLint.Syntax TemplateLint.Scope TemplateLint.Decorator

/-! ## After a validation -/

namespace Progress

/-- All attributes of a document have been looked at, and nothing waits to be reported. -/
structure Exhausted (document : Document) (progress : Progress) : Prop where
  sound : progress.Sound document
  drained : progress.pending = []
  covered : ∀ site ∈ documentAttributes document.tree, site.place ∈ progress.seen

section Exhausted

variable {document : Document} (view : document.tree.IsView) {progress : Progress}

include view

theorem exhausted_validate (sound : progress.Sound document) :
    (validate document progress).2.Exhausted document where
  sound := Operation.sound_perform view sound .validate
  drained := rfl
  covered := by
    intro site listed
    have seen := Operation.seen_perform view sound .validate
    exact seen ▸ mem_seenAfter.2 (.inr ⟨site, listed, rfl⟩)

variable (exhausted : progress.Exhausted document)

include exhausted

theorem Exhausted.unseen_eq_nil (operation : Operation) :
    unseen progress.seen (operation.attributes document) = [] := by
  refine List.eq_nil_iff_forall_not_mem.2 fun site member => ?_
  obtain ⟨listed, new⟩ := mem_unseen_imp member
  exact new (exhausted.covered site (Operation.mem_documentAttributes view operation listed))

/-- **One operation**: it hands out its findings about references, and leaves nothing to look
at. -/
theorem Exhausted.perform (operation : Operation) :
    (operation.perform document progress).1 = operation.undefined document
      ∧ (operation.perform document progress).2.Exhausted document := by
  have nothingWaits :
      (progress.examineAll document (operation.attributes document)).pending = [] := by
    rw [(examineAll_eq ..).2, exhausted.drained, exhausted.unseen_eq_nil view operation]
    rfl
  have performed := Operation.perform_eq view exhausted.sound operation
  constructor
  · cases operation with
    | ask => rfl
    | validate | resolve => simp [performed, nothingWaits, Operation.drains]
  · refine ⟨Operation.sound_perform view exhausted.sound operation, ?_, ?_⟩
    · rw [performed]
      split
      · rfl
      · exact nothingWaits
    · intro site listed
      rw [Operation.seen_perform view exhausted.sound]
      exact mem_seenAfter.2 (.inl (exhausted.covered site listed))

theorem Exhausted.answers (operations : List Operation) :
    answers document operations progress = operations.map (Operation.undefined document)
      ∧ (after document operations progress).Exhausted document := by
  induction operations generalizing progress with
  | nil => exact ⟨rfl, exhausted⟩
  | cons operation rest ih =>
    obtain ⟨now, next⟩ := exhausted.perform view operation
    obtain ⟨later, last⟩ := ih next
    exact ⟨congrArg₂ List.cons now later, last⟩

end Exhausted

end Progress

/-- **A validation covers everything that can be met.** Whatever was asked before it, every
operation after it hands out one finding for each reference that is `Undefined`, and nothing
about an attribute; and a validation at any later time hands out nothing. -/
theorem answers_after_validation (root : Node) (text : List Char) (registry : Registry)
    (earlier later : List Operation) :
    let document : Document := ⟨root.tree, text, registry⟩
    let validated := (validate document (after document earlier .start)).2
    answers document later validated = later.map (Operation.undefined document)
      ∧ (answers document later validated).flatMap faulty = []
      ∧ (validate document (after document later validated)).1 = [] := by
  intro document validated
  have view : document.tree.IsView := root.isView_tree
  have sound := sound_after view (Progress.sound_start document) earlier
  have exhausted : validated.Exhausted document := Progress.exhausted_validate view sound
  obtain ⟨handedOut, last⟩ := exhausted.answers view later
  refine ⟨handedOut, ?_, (last.perform view .validate).1⟩
  simp [handedOut, List.flatMap_map]

/-! ## Misused attributes -/

/-- The attributes that have to give names: `as` on every tag, and `for` on `repeat`. -/
inductive Binder.On : Binder → TagName → Prop where
  | as (tag : TagName) : On .as tag
  | forEach (id : Ident) (repeats : id.name = "repeat") : On .forEach (.simple id)

/-- The values that give names: a name or two of them for `as`, and these before `in` for
`for`. -/
inductive Binder.Takes : Binder → Node → Prop where
  | as {value : Node} {name : String} (gives : Gives value name) : Takes .as value
  | forEach {span : Span} {left right : Node} {name : String} (gives : Gives left name) :
      Takes .forEach ⟨span, .binary left .inside right⟩

/-- The attribute at a place has to give names and does not. -/
inductive Misused (tree : Tree) : Path → Node → Prop where
  | intro {opening : Path} {span : Span} {tag : TagName} {before after : List Node} {item : Node}
      {selfClosing : Bool} (binder : Binder)
      (found : tree.nodeAt? opening
        = some ⟨span, .jsxOpening tag (before ++ item :: after) selfClosing⟩)
      (named : attributeName? item = some binder.text) (onTag : binder.On tag)
      (invalid : ¬ ∃ value, attributeValue? item = some value ∧ binder.Takes value) :
      Misused tree (opening.item .attributes before.length) item

/-- The attribute at a place stands on a tag that binds names, and a later attribute of the tag
has the same name. -/
inductive Overridden (tree : Tree) : Path → Prop where
  | intro {opening : Path} {span : Span} {tag : TagName} {before after : List Node}
      {item other : Node} {selfClosing : Bool}
      (found : tree.nodeAt? opening
        = some ⟨span, .jsxOpening tag (before ++ item :: after) selfClosing⟩)
      (plain : tag.isMember = false) (later : other ∈ after)
      (same : attributeName? other = attributeName? item) :
      Overridden tree (opening.item .attributes before.length)

section Tags

variable {opening : Path} {binder : Binder} {form : BindingForm} {tag : TagName}
  {attributes : List Node} {site : BindingAttribute}

/-- The binding attribute that an attribute of an opening tag is. -/
def attributeAt (opening : Path) (binder : Binder) (form : BindingForm) (index : Nat)
    (item : Node) : BindingAttribute :=
  ⟨binder, form, opening.item .attributes index, item, attributeValue? item⟩

theorem attributesNamed_concat (attributes : List Node) (item : Node) :
    attributesNamed opening binder form (attributes ++ [item])
      = attributesNamed opening binder form attributes
        ++ if attributeName? item = some binder.text then
            [attributeAt opening binder form attributes.length item] else [] := by
  rw [attributesNamed, List.zipIdx_append, List.filterMap_append, attributesNamed]
  by_cases named : attributeName? item = some binder.text <;> simp [named, attributeAt]

theorem concat_eq_split_iff {α : Type} {front before after : List α} {last item : α} :
    front ++ [last] = before ++ item :: after
      ↔ (front = before ∧ last = item ∧ after = [])
        ∨ ∃ rest, front = before ++ item :: rest ∧ after = rest ++ [last] := by
  constructor
  · intro split
    rcases List.eq_nil_or_concat after with rfl | ⟨rest, final, rfl⟩
    · obtain ⟨rfl, same⟩ := List.append_inj' split rfl
      exact .inl ⟨rfl, List.singleton_inj.1 same, rfl⟩
    · rw [List.concat_eq_append, ← List.cons_append, ← List.append_assoc] at split
      obtain ⟨rfl, same⟩ := List.append_inj' split rfl
      exact .inr ⟨rest, rfl, by rw [List.concat_eq_append, same]⟩
  · rintro (⟨rfl, rfl, rfl⟩ | ⟨rest, rfl, rfl⟩)
    · rfl
    · rw [List.append_assoc, List.cons_append]

theorem mem_attributesNamed_iff_split :
    site ∈ attributesNamed opening binder form attributes
      ↔ ∃ before item after, attributes = before ++ item :: after
        ∧ attributeName? item = some binder.text
        ∧ site = attributeAt opening binder form before.length item := by
  induction attributes using List.reverseRecOn with
  | nil => simp [attributesNamed]
  | append_singleton attributes last ih =>
    rw [attributesNamed_concat, List.mem_append, ih]
    simp only [concat_eq_split_iff]
    constructor
    · rintro (⟨before, item, rest, split, found⟩ | new)
      · exact ⟨before, item, _, .inr ⟨rest, split, rfl⟩, found⟩
      · split at new
        next named => exact ⟨attributes, last, [], .inl ⟨rfl, rfl, rfl⟩, named,
          List.mem_singleton.1 new⟩
        next => cases new
    · rintro ⟨before, item, _, ⟨rfl, rfl, rfl⟩ | ⟨rest, split, rfl⟩, named, found⟩
      · exact .inr (by simp [named, found])
      · exact .inl ⟨before, item, rest, split, named, found⟩

theorem mem_last_attributesNamed_iff_split :
    site ∈ (attributesNamed opening binder form attributes).getLast?.toList
      ↔ ∃ before item after, attributes = before ++ item :: after
        ∧ attributeName? item = some binder.text
        ∧ (∀ other ∈ after, attributeName? other ≠ some binder.text)
        ∧ site = attributeAt opening binder form before.length item := by
  induction attributes using List.reverseRecOn with
  | nil => simp [attributesNamed]
  | append_singleton attributes last ih =>
    rw [attributesNamed_concat]
    simp only [concat_eq_split_iff]
    by_cases named : attributeName? last = some binder.text
    · rw [if_pos named, List.getLast?_concat, Option.toList_some, List.mem_singleton]
      constructor
      · intro found
        exact ⟨attributes, last, [], .inl ⟨rfl, rfl, rfl⟩, named, by simp, found⟩
      · rintro ⟨before, item, _, ⟨rfl, rfl, rfl⟩ | ⟨rest, split, rfl⟩, _, none, found⟩
        · exact found
        · exact absurd named (none last (by simp))
    · rw [if_neg named, List.append_nil, ih]
      constructor
      · rintro ⟨before, item, rest, split, here, none, found⟩
        refine ⟨before, item, _, .inr ⟨rest, split, rfl⟩, here, ?_, found⟩
        exact List.forall_mem_append.2 ⟨none, by simpa using named⟩
      · rintro ⟨before, item, _, ⟨rfl, rfl, rfl⟩ | ⟨rest, split, rfl⟩, here, none, found⟩
        · exact absurd here named
        · exact ⟨before, item, rest, split, here, (List.forall_mem_append.1 none).1, found⟩

/-- An attribute of a tag counts: it has a name to look for, and unless the tag is a member of an
object, none after it has the same name. -/
def Counts (opening : Path) (tag : TagName) (attributes : List Node) (binder : Binder)
    (site : BindingAttribute) : Prop :=
  ∃ before item after, attributes = before ++ item :: after
    ∧ attributeName? item = some binder.text
    ∧ (tag.isMember = false → ∀ other ∈ after, attributeName? other ≠ some binder.text)
    ∧ site = attributeAt opening binder (formOf (.ofTag tag) binder) before.length item

theorem counts_of_member (isMember : tag.isMember = true) :
    Counts opening tag attributes binder site
      ↔ site ∈ attributesNamed opening binder (formOf (.ofTag tag) binder) attributes := by
  simp [Counts, isMember, mem_attributesNamed_iff_split]

theorem counts_of_plain (plain : tag.isMember = false) :
    Counts opening tag attributes binder site ↔ site ∈
      (attributesNamed opening binder (formOf (.ofTag tag) binder) attributes).getLast?.toList := by
  simp only [Counts, plain, true_implies, mem_last_attributesNamed_iff_split]

theorem exists_on_iff_of_ne_repetition (other : TagKind.ofTag tag ≠ .repetition)
    {holds : Binder → Prop} : (∃ binder : Binder, binder.On tag ∧ holds binder) ↔ holds .as := by
  constructor
  · rintro ⟨_, ⟨⟩ | ⟨id, repeats⟩, here⟩
    · exact here
    · exact absurd ((TagKind.ofTag_eq_repetition_iff _).2 ⟨id, rfl, repeats⟩) other
  · exact fun here => ⟨.as, .as tag, here⟩

theorem exists_on_iff_of_repetition (repetition : TagKind.ofTag tag = .repetition)
    {holds : Binder → Prop} :
    (∃ binder : Binder, binder.On tag ∧ holds binder) ↔ holds .forEach ∨ holds .as := by
  obtain ⟨id, rfl, repeats⟩ := (TagKind.ofTag_eq_repetition_iff tag).1 repetition
  constructor
  · rintro ⟨binder, _, here⟩
    cases binder with
    | forEach => exact .inl here
    | as => exact .inr here
  · rintro (here | here)
    · exact ⟨.forEach, .forEach id repeats, here⟩
    · exact ⟨.as, .as _, here⟩

/-- **The attributes that are checked** are those that have to give names and count. -/
theorem mem_checkedAttributes_iff {span : Span} {selfClosing : Bool} :
    site ∈ checkedAttributes opening ⟨span, .jsxOpening tag attributes selfClosing⟩
      ↔ ∃ binder : Binder, binder.On tag ∧ Counts opening tag attributes binder site := by
  cases kind : TagKind.ofTag tag with
  | member =>
    have isMember := (TagKind.ofTag_eq_member_iff tag).1 kind
    rw [exists_on_iff_of_ne_repetition (by simp [kind]), counts_of_member isMember, kind]
    simp only [checkedAttributes, kind]
    rfl
  | repetition =>
    have plain : tag.isMember = false := by
      rw [Bool.eq_false_iff, Ne, ← TagKind.ofTag_eq_member_iff, kind]
      exact TagKind.noConfusion
    rw [exists_on_iff_of_repetition kind, counts_of_plain plain, counts_of_plain plain, kind,
      ← List.mem_append]
    simp only [checkedAttributes, bindingAttributes, kind]
    rfl
  | naming | generic =>
    have plain : tag.isMember = false := by
      rw [Bool.eq_false_iff, Ne, ← TagKind.ofTag_eq_member_iff, kind]
      exact TagKind.noConfusion
    rw [exists_on_iff_of_ne_repetition (by simp [kind]), counts_of_plain plain, kind]
    simp only [checkedAttributes, bindingAttributes, kind]
    rfl

end Tags

/-! ## The findings of a validation -/

theorem names?_eq_none_iff (node : Node) : names? node = none ↔ ¬ ∃ name, Gives node name := by
  simp only [gives_iff]
  cases names? node with
  | none => simp
  | some names => simpa using ⟨names.first, .head _⟩

section Findings

variable {opening : Path} {binder : Binder} {form : BindingForm} {index : Nat} {item : Node}

theorem exists_target?_iff (opening : Path) (binder : Binder) (form : BindingForm) (index : Nat)
    (item : Node) :
    (∃ target, (attributeAt opening binder form index item).target? = some target
        ∧ ∃ name, Gives target name)
      ↔ ∃ value, attributeValue? item = some value ∧ binder.Takes value := by
  constructor
  · rintro ⟨target, found, name, gives⟩
    cases binder with
    | as => exact ⟨target, found, .as gives⟩
    | forEach =>
      unfold BindingAttribute.target? attributeAt at found
      split at found
      next holds =>
        cases found
        exact ⟨_, holds, .forEach gives⟩
      next => cases found
      next impossible => cases impossible
  · rintro ⟨value, holds, gives | gives⟩
    · exact ⟨value, holds, _, gives⟩
    · exact ⟨_, by rw [BindingAttribute.target?, attributeAt, holds], _, gives⟩

theorem names?_attributeAt_eq_none_iff :
    (attributeAt opening binder form index item).names? = none
      ↔ ¬ ∃ value, attributeValue? item = some value ∧ binder.Takes value := by
  rw [← exists_target?_iff opening binder form index item]
  simp only [BindingAttribute.names?, Option.bind_eq_none_iff, names?_eq_none_iff, not_exists,
    not_and]

variable {tree : Tree} {span : Span} {tag : TagName} {before after : List Node}
  {selfClosing : Bool}

theorem overridden_iff (found : tree.nodeAt? opening
      = some ⟨span, .jsxOpening tag (before ++ item :: after) selfClosing⟩) :
    Overridden tree (opening.item .attributes before.length)
      ↔ tag.isMember = false ∧ ∃ other ∈ after, attributeName? other = attributeName? item := by
  constructor
  · generalize place : opening.item .attributes before.length = path
    rintro ⟨foundOther, plain, later, same⟩
    obtain ⟨step, rfl⟩ := List.cons.inj place
    obtain ⟨-, sameForm⟩ := Node.mk.inj (Option.some.inj (found.symm.trans foundOther))
    obtain ⟨rfl, split, -⟩ := Form.jsxOpening.inj sameForm
    obtain ⟨rfl, rest⟩ := List.append_inj split (congrArg Step.index step)
    obtain ⟨rfl, rfl⟩ := List.cons.inj rest
    exact ⟨plain, _, later, same⟩
  · rintro ⟨plain, other, later, same⟩
    exact .intro found plain later same

theorem exists_faulty_iff (view : tree.IsView) (place : Path) (node : Node) :
    (∃ site ∈ documentAttributes tree, site.names? = none ∧ site.place = place ∧ site.node = node)
      ↔ Misused tree place node ∧ ¬ Overridden tree place := by
  constructor
  · rintro ⟨site, member, invalid, rfl, rfl⟩
    obtain ⟨opening, ⟨span, form⟩, found, member⟩ := (mem_documentAttributes_iff view).1 member
    cases form with
    | jsxOpening tag attributes selfClosing =>
      obtain ⟨binder, onTag, before, item, after, rfl, named, last, rfl⟩ :=
        mem_checkedAttributes_iff.1 member
      refine ⟨.intro binder found named onTag (names?_attributeAt_eq_none_iff.1 invalid), ?_⟩
      intro overridden
      obtain ⟨plain, other, later, same⟩ := (overridden_iff found).1 overridden
      exact last plain other later (same.trans named)
    | _ => cases member
  · rintro ⟨⟨binder, found, named, onTag, invalid⟩, valid⟩
    refine ⟨_, (mem_documentAttributes_iff view).2 ⟨_, _, found, mem_checkedAttributes_iff.2
      ⟨binder, onTag, _, _, _, rfl, named, ?_, rfl⟩⟩,
      names?_attributeAt_eq_none_iff.2 invalid, rfl, rfl⟩
    intro plain other later same
    exact valid (.intro found plain later (same.trans named.symm))

end Findings

def Finding.place? (finding : Finding) : Option Path :=
  finding.site?.map BindingAttribute.place

/-- The findings of a first validation are the faults of the attributes of the document, each
place once. -/
theorem validate_start (document : Document) :
    (validate document .start).1
      = (unseen [] (documentAttributes document.tree)).filterMap (Progress.fault? document) := by
  rw [validate, Progress.drain]
  exact (Progress.examineAll_eq document .start _).2

theorem mem_validate_start_iff {document : Document} (view : document.tree.IsView)
    (finding : Finding) :
    finding ∈ (validate document .start).1
      ↔ ∃ site ∈ documentAttributes document.tree,
        Progress.fault? document site = some finding := by
  have settled : ∀ site ∈ documentAttributes document.tree,
      ∀ other ∈ documentAttributes document.tree, site.place = other.place → site = other :=
    fun site here other there => eq_of_place_eq view here there
  simp [validate_start, List.mem_filterMap, mem_unseen_iff settled]

theorem map_place?_filterMap_fault? (document : Document) (sites : List BindingAttribute) :
    (sites.filterMap (Progress.fault? document)).map Finding.place?
      = ((sites.filter fun site => site.names?.isNone).map BindingAttribute.place).map some := by
  induction sites with
  | nil => rfl
  | cons site rest ih =>
    rw [List.filterMap_cons, List.filter_cons]
    cases names : site.names? with
    | none =>
      simp only [Progress.fault?, names, Option.isNone_none, if_true, List.map_cons, ih]
      rfl
    | some found => simpa [Progress.fault?, names] using ih

/-- **A validation reports the misused attributes**: its findings are all about values of binding
attributes. Each is at the attribute that it is about, and there is one for each attribute that is
misused and not overridden. -/
theorem validate_reports_misused (root : Node) (text : List Char) (registry : Registry) :
    let findings := (validate ⟨root.tree, text, registry⟩ .start).1
    (∀ finding ∈ findings, finding.errorId = "invalidBindingValue")
      ∧ (findings.map Finding.place?).Nodup
      ∧ ∀ place node,
        (∃ finding ∈ findings, finding.place? = some place ∧ finding.node = node)
          ↔ Misused root.tree place node ∧ ¬ Overridden root.tree place := by
  intro findings
  have view : root.tree.IsView := root.isView_tree
  refine ⟨fun finding member => ?_, ?_, fun place node => ?_⟩
  · obtain ⟨site, _, fault⟩ := (mem_validate_start_iff view finding).1 member
    obtain ⟨_, _, about⟩ := fault?_eq_some fault
    cases finding with
    | invalidBinding => rfl
    | unresolved => cases about
  · simp only [findings, validate_start, map_place?_filterMap_fault?]
    refine List.Nodup.map (fun _ _ => Option.some.inj) ?_
    exact (nodup_unseen _ _).sublist (List.filter_sublist.map _)
  · rw [← exists_faulty_iff view]
    constructor
    · rintro ⟨finding, member, atPlace, rfl⟩
      obtain ⟨site, listed, fault⟩ := (mem_validate_start_iff view finding).1 member
      obtain ⟨invalid, about, _⟩ := fault?_eq_some fault
      rw [Finding.place?, about] at atPlace
      refine ⟨site, listed, invalid, Option.some.inj atPlace, ?_⟩
      cases finding with
      | invalidBinding => exact congrArg _ (Option.some.inj about).symm
      | unresolved => cases about
    · rintro ⟨site, listed, invalid, rfl, rfl⟩
      obtain ⟨value, fault⟩ : ∃ value,
          Progress.fault? ⟨root.tree, text, registry⟩ site = some (.invalidBinding site value) := by
        simp [Progress.fault?, invalid]
      exact ⟨_, (mem_validate_start_iff view _).2 ⟨site, listed, fault⟩, rfl, rfl⟩

/-- The first attribute of a tag is an `as` with a literal. -/
def startsWithLiteral : Node → Bool
  | ⟨_, .jsxOpening _ (item :: _) _⟩ =>
    attributeName? item == some "as" && match attributeValue? item with
      | some ⟨_, .literal ..⟩ => true
      | _ => false
  | _ => false

theorem exists_misused {tree : Tree} {opening : Path}
    (found : (tree.nodeAt? opening).any startsWithLiteral = true) :
    ∃ item, Misused tree (opening.item .attributes 0) item := by
  obtain ⟨node, there, starts⟩ := (Option.any_eq_true _ _).1 found
  unfold startsWithLiteral at starts
  split at starts
  next span tag item rest selfClosing =>
    obtain ⟨named, starts⟩ := Bool.and_eq_true_iff.1 starts
    split at starts
    next valueSpan literal raw given =>
      refine ⟨item, @Misused.intro _ _ _ _ [] _ _ _ .as there (beq_iff_eq.1 named) (.as tag) ?_⟩
      rintro ⟨value, holds, gives | _⟩
      cases given.symm.trans holds
      cases gives
    next => cases starts
  next => cases starts

/-- **An overridden attribute is passed over**, though its value is not a name: in
`<a as={1} as={b} />;` the first `as` is misused, and nothing is reported. -/
theorem validate_overridden_silent : ∃ root,
    Grammar.parse "<a as={1} as={b} />;" = .ok root
      ∧ (∃ place item, Misused root.tree place item)
      ∧ (validate ⟨root.tree, "<a as={1} as={b} />;".toList, .empty⟩ .start).1 = [] := by
  have run : ((Grammar.parse "<a as={1} as={b} />;").toOption.any fun root =>
      (root.tree.nodeAt? [⟨.openingElement, 0⟩, ⟨.expression, 0⟩, ⟨.body, 0⟩]).any startsWithLiteral
        && (validate ⟨root.tree, "<a as={1} as={b} />;".toList, .empty⟩ .start).1.isEmpty)
      = true := by
    decide +kernel
  obtain ⟨root, parsed, run⟩ := Grammar.exists_of_any_parse run
  obtain ⟨misused, silent⟩ := Bool.and_eq_true_iff.1 run
  exact ⟨root, parsed, ⟨_, exists_misused misused⟩, List.isEmpty_iff.1 silent⟩

end TemplateLint.Template
