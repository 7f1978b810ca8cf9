import TemplateLint.Proofs.Grammar.Checks
import TemplateLint.Proofs.Grammar.Program

/-!
# The two tags of an element

An element that does not close itself has two tags, and their names are compared by their written
forms. A text whose match has an element with unlike names is rejected (`rejected_of_unlike`), and
no other text is rejected for a closing tag (`exists_unlike`).
-/

namespace TemplateLint.Grammar

open TemplateLint.Syntax

/-! ## Elements with two tags -/

/-- A tag with this name starts at an offset. -/
def StartsTag (source : List Char) (opener : String) (offset : Nat) (name : TagName) : Prop :=
  ∃ result, Reads sourceGrammar (symbol opener *> elementName) offset (source.drop offset)
    (some result) ∧ result.value = .ok name

/-- The names in the two tags of an element that starts at an offset. -/
def HasTags (source : List Char) (offset : Nat) (first last : TagName) : Prop :=
  ∃ opening children,
    Reads sourceGrammar openingTag offset (source.drop offset) (some opening)
      ∧ Reads sourceGrammar (.many child) (offset + opening.width)
        (source.drop (offset + opening.width)) (some children)
      ∧ StartsTag source "<" offset first
      ∧ StartsTag source "</" (offset + opening.width + children.width) last

/-! ## Values of parts -/

section Values

variable {α β : Type} {part : Parser α} {offset : Nat} {text : List Char}

theorem Reads.seq_ok {first : Parser (α → β)} {result : Match SyntaxError β} {value : β}
    (reads : Reads sourceGrammar (first <*> part) offset text (some result))
    (accepted : result.value = .ok value) :
    ∃ left right f a, Reads sourceGrammar first offset text (some left) ∧ left.value = .ok f
      ∧ Reads sourceGrammar part (offset + left.width) (text.drop left.width) (some right)
      ∧ right.value = .ok a ∧ f a = value ∧ result.width = left.width + right.width := by
  rcases reads.premises with ⟨left, inner, readsLeft, readsRight, same⟩ | ⟨-, same⟩
  · cases inner with
    | none => cases same
    | some right =>
      cases same
      obtain ⟨f, a, former, latter, applied⟩ := Match.value_append_eq_ok accepted
      exact ⟨left, right, f, a, readsLeft, former, readsRight, latter, applied, rfl⟩
  · cases same

theorem Reads.map_ok {f : α → β} {result : Match SyntaxError β} {value : β}
    (reads : Reads sourceGrammar (f <$> part) offset text (some result))
    (accepted : result.value = .ok value) :
    ∃ inner a, Reads sourceGrammar part offset text (some inner) ∧ inner.value = .ok a
      ∧ f a = value ∧ result.width = inner.width := by
  obtain ⟨left, right, g, a, readsLeft, former, readsRight, latter, applied, width⟩ :=
    Reads.seq_ok reads accepted
  cases readsLeft.premises
  cases former
  exact ⟨right, a, readsRight, latter, applied, width.trans (Nat.zero_add _)⟩

theorem Reads.located_ok {result : Match SyntaxError (Extent × α)} {value : Extent × α}
    (reads : Reads sourceGrammar (.located part) offset text (some result))
    (accepted : result.value = .ok value) :
    ∃ inner, Reads sourceGrammar part offset text (some inner) ∧ inner.value = .ok value.2
      ∧ result.width = inner.width := by
  obtain ⟨inner, readsInner, same⟩ := reads.premises
  cases inner with
  | none => cases same
  | some inner =>
    cases same
    obtain ⟨a, found, rfl⟩ := Match.value_map_eq_ok accepted
    exact ⟨inner, readsInner, found, rfl⟩

theorem Reads.seqLeft_ok {second : Parser β} {result : Match SyntaxError α} {value : α}
    (reads : Reads sourceGrammar (part <* second) offset text (some result))
    (accepted : result.value = .ok value) :
    ∃ inner, Reads sourceGrammar part offset text (some inner) ∧ inner.value = .ok value := by
  obtain ⟨left, right, f, a, readsLeft, former, -, -, rfl, -⟩ := Reads.seq_ok reads accepted
  obtain ⟨inner, b, readsInner, found, rfl, -⟩ := Reads.map_ok readsLeft former
  exact ⟨inner, readsInner, found⟩

theorem Reads.check_ok {accept : α → Except SyntaxError β} {result : Match SyntaxError β}
    {value : β}
    (reads : Reads sourceGrammar (.check part accept) offset text (some result))
    (accepted : result.value = .ok value) :
    ∃ inner a, Reads sourceGrammar part offset text (some inner) ∧ inner.value = .ok a
      ∧ accept a = .ok value := by
  obtain ⟨inner, readsInner, same⟩ := reads.premises
  cases inner with
  | none => cases same
  | some inner =>
    cases same
    dsimp only at accepted
    cases found : inner.value with
    | error fault =>
      rw [found] at accepted
      cases accepted
    | ok a =>
      rw [found] at accepted
      exact ⟨inner, a, readsInner, found, accepted⟩

end Values

/-! ## Names of tags -/

section Names

variable {source : List Char} {offset : Nat}

theorem startsTag_of_openingTag {result : Match SyntaxError (TagName × Node)}
    {name : TagName} {opening : Node}
    (reads : Reads sourceGrammar openingTag offset (source.drop offset) (some result))
    (accepted : result.value = .ok (name, opening)) : StartsTag source "<" offset name := by
  obtain ⟨located, ⟨extent, head⟩, readsLocated, found, same, -⟩ := Reads.map_ok reads accepted
  obtain ⟨inner, readsInner, found, -⟩ := Reads.located_ok readsLocated found
  obtain ⟨whole, readsHead, found⟩ := Reads.seqLeft_ok readsInner found
  obtain ⟨left, right, f, attributes, readsLeft, former, -, -, applied, -⟩ :=
    Reads.seq_ok readsHead found
  obtain ⟨begun, first, readsName, named, rfl, -⟩ := Reads.map_ok readsLeft former
  cases applied
  cases same
  exact ⟨begun, readsName, named⟩

theorem startsTag_of_closingTag {result : Match SyntaxError (TagName × Node)}
    {name : TagName} {closing : Node}
    (reads : Reads sourceGrammar closingTag offset (source.drop offset) (some result))
    (accepted : result.value = .ok (name, closing)) : StartsTag source "</" offset name := by
  obtain ⟨located, ⟨extent, last⟩, readsLocated, found, same, -⟩ := Reads.map_ok reads accepted
  obtain ⟨inner, readsInner, found, -⟩ := Reads.located_ok readsLocated found
  obtain ⟨whole, readsName, named⟩ := Reads.seqLeft_ok readsInner found
  cases same
  exact ⟨whole, readsName, named⟩

theorem StartsTag.unique {opener : String} {name other : TagName}
    (starts : StartsTag source opener offset name)
    (starts' : StartsTag source opener offset other) : name = other := by
  obtain ⟨result, reads, named⟩ := starts
  obtain ⟨result', reads', named'⟩ := starts'
  cases reads.unique reads'
  exact Except.ok.inj (named.symm.trans named')

theorem HasTags.unique {first last first' last' : TagName}
    (tags : HasTags source offset first last) (tags' : HasTags source offset first' last') :
    first = first' ∧ last = last' := by
  obtain ⟨opening, children, readsOpening, readsChildren, starts, ends⟩ := tags
  obtain ⟨opening', children', readsOpening', readsChildren', starts', ends'⟩ := tags'
  cases readsOpening.unique readsOpening'
  cases readsChildren.unique readsChildren'
  exact ⟨starts.unique starts', ends.unique ends'⟩

/-- The names that the grammar can build. -/
def IsElementName (name : TagName) : Prop :=
  ∃ source offset result, Reads sourceGrammar elementName offset (List.drop offset source)
    (some result) ∧ result.value = .ok name

theorem Reads.isPlain {part : Parser TagName} (ensured : part.Ensures shapes TagName.IsPlain)
    {result : Match SyntaxError TagName} {name : TagName}
    (reads : Reads sourceGrammar part offset (source.drop offset) (some result))
    (accepted : result.value = .ok name) : name.IsPlain :=
  reads.ensures progressive_sourceGrammar.filled ensures_body ensured accepted

theorem IsElementName.isPlain {name : TagName} (built : IsElementName name) : name.IsPlain := by
  obtain ⟨source, offset, result, reads, accepted⟩ := built
  exact reads.isPlain plain_elementName accepted

theorem StartsTag.isPlain {opener : String} {name : TagName}
    (starts : StartsTag source opener offset name) : name.IsPlain := by
  obtain ⟨result, reads, accepted⟩ := starts
  exact reads.isPlain plain_elementName.after accepted

/-- Without a fault in its parts, an element has the names that are compared. -/
theorem hasTags_of_parts
    {result : Match SyntaxError ((TagName × Node) × List Node × TagName × Node)}
    {opening closing : TagName × Node} {children : List Node}
    (reads : Reads sourceGrammar ((fun opening children closing => (opening, children, closing)) <$>
      openingTag <*> .many child <*> closingTag) offset (source.drop offset) (some result))
    (accepted : result.value = .ok (opening, children, closing)) :
    HasTags source offset opening.1 closing.1 := by
  obtain ⟨front, back, f, last, readsFront, foundFront, readsClosing, foundClosing, built, -⟩ :=
    Reads.seq_ok reads accepted
  obtain ⟨head, inner, g, among, readsHead, foundHead, readsChildren, -, rfl, width⟩ :=
    Reads.seq_ok readsFront foundFront
  obtain ⟨start, first, readsOpening, foundOpening, rfl, same⟩ := Reads.map_ok readsHead foundHead
  cases built
  rw [same, List.drop_drop] at readsChildren
  rw [width, same, List.drop_drop, ← Nat.add_assoc] at readsClosing
  exact ⟨start, inner, readsOpening, readsChildren,
    startsTag_of_openingTag readsOpening foundOpening,
    startsTag_of_closingTag readsClosing foundClosing⟩

/-- Unlike names are a fault. -/
theorem refused_of_unlike {first last : TagName}
    (matched : Call.Matches sourceGrammar source ⟨elementForm, offset⟩)
    (tags : HasTags source offset first last) (unlike : ¬ first.Alike last) :
    ∃ fault, Call.Refused sourceGrammar source fault ⟨elementForm, offset⟩ := by
  obtain ⟨result, reads⟩ := matched
  cases accepted : result.value with
  | error fault => exact ⟨fault, result, reads, accepted⟩
  | ok form =>
    obtain ⟨inner, ⟨opening, children, closing⟩, readsInner, parts, compared⟩ :=
      Reads.check_ok reads accepted
    obtain ⟨rfl, rfl⟩ := tags.unique (hasTags_of_parts readsInner parts)
    obtain ⟨_, _, _, _, starts, ends⟩ := tags
    have differ : opening.1.render ≠ closing.1.render := fun same =>
      unlike (TagName.alike_of_render_eq starts.isPlain ends.isPlain same)
    simp only [beq_eq_false_iff_ne.2 differ] at compared
    cases compared

theorem exists_unlike_of_raises {fault : SyntaxError}
    (raised : Call.Raises sourceGrammar source fault ⟨elementForm, offset⟩) :
    ∃ first last, HasTags source offset first last ∧ ¬ first.Alike last := by
  obtain ⟨result, ⟨opening, children, closing⟩, reads, accepted, refused⟩ := raised
  refine ⟨opening.1, closing.1, hasTags_of_parts reads accepted, fun alike => ?_⟩
  simp only [alike.render_eq, beq_self_eq_true] at refused
  cases refused

end Names

/-! ## Source texts -/

section Sources

variable {source : String}

/-- The match of a source text has an element with these tags. -/
def HasElement (source : String) (first last : TagName) : Prop :=
  ∃ offset, Call.Within sourceGrammar source.toList ⟨elementForm, offset⟩ ⟨program, 0⟩
    ∧ HasTags source.toList offset first last

theorem parse_error_of_refused {fault : SyntaxError}
    (refused : Call.Refused sourceGrammar source.toList fault ⟨program, 0⟩) :
    ∃ fault', parse source = .error fault' := by
  obtain ⟨result, reads, faulty⟩ := refused
  cases reads.unique (reads_program source.toList)
  rw [parse_eq]
  dsimp only
  split
  · exact ⟨_, rfl⟩
  · rw [faulty]
    exact ⟨fault, rfl⟩

/-- A text with an element whose tags have different names is rejected. -/
theorem rejected_of_unlike {first last : TagName} (has : HasElement source first last)
    (unlike : ¬ first.Alike last) : ∃ fault, parse source = .error fault := by
  obtain ⟨offset, within, tags⟩ := has
  have matched : Call.Matches sourceGrammar source.toList ⟨program, 0⟩ :=
    ⟨_, reads_program source.toList⟩
  have inner : Call.Matches sourceGrammar source.toList ⟨elementForm, offset⟩ := by
    rcases within.cases_tail with same | ⟨_, -, retained⟩
    · exact same ▸ matched
    · exact retained.2
  obtain ⟨fault, refused⟩ := refused_of_unlike inner tags unlike
  obtain ⟨fault', refused⟩ := refused.of_within within matched
  exact parse_error_of_refused refused

/-- If a closing tag is rejected, some element has tags of different names. -/
theorem exists_unlike {place : Nat} {expected found : String}
    (rejected : parse source = .error (.closingTag place expected found)) :
    ∃ first last, HasElement source first last ∧ ¬ first.Alike last := by
  obtain ⟨_, _, mild⟩ | mild | ⟨offset, within, raises⟩ := cases_of_rejected rejected
  · cases mild
  · cases mild
  · obtain ⟨first, last, tags, unlike⟩ := exists_unlike_of_raises raises
    exact ⟨first, last, ⟨offset, within, tags⟩, unlike⟩

end Sources

theorem isElementName_of_read (source : String) {name : TagName}
    (read : (sourceGrammar.read elementName source.toList).map Match.value = some (.ok name)) :
    IsElementName name := by
  obtain ⟨result, evaluated, value⟩ := Option.map_eq_some_iff.1 read
  have reads := progressive_sourceGrammar.reads_iff (by decide : elementName.repeatsProgress = true)
    source.toList (Nat.zero_le _) (some result)
  exact ⟨source.toList, 0, result, reads.2 evaluated, value⟩

/-- **Tag names are compared by their structure.** Written forms of names are equal exactly if the
names have the same form and the same parts, and the part that can name a variable is what stands
before the first mark. In the tree of every text the tags of an element have names that are alike; a
text whose match has an element with unlike names is rejected, and no other one is rejected for a
closing tag. -/
theorem tag_names_compared_by_structure :
    (∀ name other, IsElementName name → IsElementName other →
        (name.render = other.render ↔ name.Alike other))
      ∧ (∀ name, IsElementName name →
        name.root.toList = name.render.toList.takeWhile fun c => c != ':' && c != '.')
      ∧ (∀ source root, parse source = .ok root → ∀ place span opening children closing,
        root.tree.nodeAt? place = some ⟨span, .jsxElement opening children (some closing)⟩ →
          opening.IsClosedBy closing)
      ∧ ∀ source,
        ((∃ first last, HasElement source first last ∧ ¬ first.Alike last) →
            ∃ fault, parse source = .error fault)
          ∧ ∀ place expected found, parse source = .error (.closingTag place expected found) →
            ∃ first last, HasElement source first last ∧ ¬ first.Alike last := by
  refine ⟨?_, ?_, ?_, fun source => ⟨?_, ?_⟩⟩
  · intro name other built built'
    exact TagName.render_eq_iff built.isPlain built'.isPlain
  · intro name built
    have marks : (fun c => !TagName.isSeparator c) = fun c => c != ':' && c != '.' := by
      funext c
      simp [TagName.isSeparator, bne]
    exact marks ▸ TagName.root_eq built.isPlain
  · intro source root parsed place span opening children closing found
    have tidy := (Tree.Everywhere.nodeAt? root.isView_tree (tidy_of_parse parsed) found).1
    exact tidy closing rfl
  · rintro ⟨first, last, has, unlike⟩
    exact rejected_of_unlike has unlike
  · intro place expected found rejected
    exact exists_unlike rejected

/-- An element that does not close itself. -/
def isPaired : Node → Bool
  | ⟨_, .jsxElement _ _ (some _)⟩ => true
  | _ => false

def fault? : Except SyntaxError Node → Option SyntaxError
  | .ok _ => none
  | .error fault => some fault

theorem tag_names_compared_by_structure_mixed :
    (∃ name other, IsElementName name ∧ IsElementName other ∧ name.render = "A.B"
        ∧ other.render = "A:B" ∧ ¬ name.Alike other
        ∧ name.root.toList = "A.B".toList.takeWhile fun c => c != ':' && c != '.')
      ∧ (∃ root place span opening children closing, parse "<A.B><c:d></c:d></A.B>" = .ok root
        ∧ root.tree.nodeAt? place = some ⟨span, .jsxElement opening children (some closing)⟩
        ∧ opening.IsClosedBy closing)
      ∧ (∃ first last, HasElement "<p>{<A.B></A:B>}</p>" first last ∧ ¬ first.Alike last)
      ∧ ∃ fault, parse "<p>{<A.B></A:B>}</p>" = .error fault := by
  obtain ⟨compared, names, closed, rejected⟩ := tag_names_compared_by_structure
  have member : IsElementName (.member (.simple ⟨⟨0, 1⟩, "A"⟩) ⟨⟨2, 3⟩, "B"⟩) :=
    isElementName_of_read "A.B" (by decide +kernel)
  have spaced : IsElementName (.namespaced ⟨⟨0, 1⟩, "A"⟩ ⟨⟨2, 3⟩, "B"⟩) :=
    isElementName_of_read "A:B" (by decide +kernel)
  have run : ((parse "<A.B><c:d></c:d></A.B>").toOption.any fun root =>
      let place : Path := [⟨.children, 0⟩, ⟨.expression, 0⟩, ⟨.body, 0⟩]
      (root.tree.nodeAt? place).any isPaired) = true := by
    decide +kernel
  obtain ⟨root, parsed, run⟩ := exists_of_any_parse run
  obtain ⟨node, found, tagged⟩ := (Option.any_eq_true _ _).1 run
  have fault : fault? (parse "<p>{<A.B></A:B>}</p>") = some (.closingTag 9 "A.B" "A:B") := by
    decide +kernel
  have unlike : ∃ first last, HasElement "<p>{<A.B></A:B>}</p>" first last
      ∧ ¬ first.Alike last := by
    cases found : parse "<p>{<A.B></A:B>}</p>" with
    | ok root =>
      rw [found] at fault
      cases fault
    | error raised =>
      rw [found] at fault
      obtain rfl := Option.some.inj fault
      exact (rejected _).2 9 "A.B" "A:B" found
  refine ⟨⟨_, _, member, spaced, rfl, rfl, ?_, names _ member⟩, ?_, unlike,
    (rejected _).1 unlike⟩
  · rw [← compared _ _ member spaced]
    decide
  · unfold isPaired at tagged
    split at tagged
    next span opening children closing =>
      exact ⟨root, _, span, opening, children, closing, parsed, found,
        closed _ root parsed _ span opening children closing found⟩
    next => cases tagged

end TemplateLint.Grammar
