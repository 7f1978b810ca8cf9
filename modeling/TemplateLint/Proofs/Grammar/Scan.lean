import TemplateLint.Grammar.Terminal

/-!
# The widths of lexemes

A lexeme ends inside the text it is read from (`Terminal.scan_le`), and only trivia may have no
characters, apart from terminals that are given by an empty text (`Terminal.scan_pos`). Both
are shown scanner by scanner.
-/

namespace TemplateLint.Grammar

open TemplateLint.Text

variable {width found : Nat} {text : List Char} {choices : List String}

/-! ## Runs of characters -/

theorem length_takeWhile_le (keep : Char → Bool) (text : List Char) :
    (text.takeWhile keep).length ≤ text.length :=
  (List.takeWhile_prefix keep).length_le

theorem nonzero_eq_some_iff :
    nonzero width = some found ↔ width = found ∧ 0 < found := by
  unfold nonzero
  split <;> simp <;> omega

theorem length_nameAt_le (text : List Char) : (nameAt text).length ≤ text.length := by
  cases text with
  | nil => exact Nat.le_refl 0
  | cons c rest =>
    rw [nameAt]
    split
    · exact Nat.succ_le_succ (length_takeWhile_le isNamePart rest)
    · exact Nat.zero_le _

theorem length_le_of_isPrefixOf {word : String} (found : word.toList.isPrefixOf text = true) :
    word.length ≤ text.length := by
  rw [← String.length_toList]
  exact (List.isPrefixOf_iff_prefix.1 found).length_le

theorem exists_of_find?_map {fits : String → Bool}
    (found : (choices.find? fits).map String.length = some width) :
    ∃ word ∈ choices, fits word = true ∧ word.length = width := by
  obtain ⟨word, hit, rfl⟩ := Option.map_eq_some_iff.1 found
  exact ⟨word, List.mem_of_find?_eq_some hit, List.find?_some hit, rfl⟩

theorem length_pos_of_ne_empty {word : String} (filled : (word == "") = false) :
    0 < word.length := by
  rw [← String.length_toList]
  apply List.length_pos_iff.2
  intro empty
  exact beq_eq_false_iff_ne.1 filled (String.toList_eq_nil_iff.1 empty)

theorem length_pos_of_mem (filled : choices.contains "" = false)
    {word : String} (member : word ∈ choices) : 0 < word.length := by
  apply length_pos_of_ne_empty
  apply beq_eq_false_iff_ne.2
  rintro rfl
  rw [List.contains_iff_mem.2 member] at filled
  cases filled

theorem bounds_of_find? {fits : String → Bool}
    (begins : ∀ word, fits word = true → word.toList.isPrefixOf text = true)
    (found : (choices.find? fits).map String.length = some width) :
    width ≤ text.length ∧ (choices.contains "" = false → 0 < width) := by
  obtain ⟨word, member, fits, rfl⟩ := exists_of_find?_map found
  exact ⟨length_le_of_isPrefixOf (begins word fits), fun filled => length_pos_of_mem filled member⟩

/-! ## Numbers -/

/-- The characters that may open a comment or something that hides comments. -/
def isOpening (c : Char) : Bool := c == '"' || c == '\'' || c == '/' || c == backquote

theorem isOpening_of (kind : Char → Bool)
    (others : ['"', '\'', '/', backquote].all (!kind ·) = true) {c : Char}
    (member : kind c = true) : isOpening c = false := by
  cases opening : isOpening c with
  | false => rfl
  | true =>
    have listed : c ∈ ['"', '\'', '/', backquote] := by
      simpa [isOpening, or_assoc] using opening
    have outside := List.all_eq_true.1 others c listed
    rw [member] at outside
    cases outside

/-- So many characters are there, and none of them starts a quoted text or a comment. -/
structure Unopened (text : List Char) (width : Nat) : Prop where
  inside : width ≤ text.length
  each : ∀ c ∈ text.take width, isOpening c = false

theorem unopened_zero (text : List Char) : Unopened text 0 := ⟨Nat.zero_le _, by simp⟩

theorem Unopened.add {more : Nat} (former : Unopened text width)
    (latter : Unopened (text.drop width) more) : Unopened text (width + more) := by
  have total := latter.inside
  rw [List.length_drop] at total
  refine ⟨by have := former.inside; omega, fun c member => ?_⟩
  rw [List.take_add, List.mem_append] at member
  exact member.elim (former.each c) (latter.each c)

theorem unopened_cons {c : Char} (here : isOpening c = false) (later : Unopened text width) :
    Unopened (c :: text) (width + 1) := by
  refine ⟨Nat.succ_le_succ later.inside, ?_⟩
  rw [List.take_succ_cons, List.forall_mem_cons]
  exact ⟨here, later.each⟩

theorem unopened_of_takeWhile {kind : Char → Bool}
    (others : ['"', '\'', '/', backquote].all (!kind ·) = true)
    (run : width ≤ (text.takeWhile kind).length) : Unopened text width := by
  have starts := List.takeWhile_prefix (l := text) kind
  have whole : text.take width = (text.takeWhile kind).take width := by
    rw [List.prefix_iff_eq_take.1 starts, List.take_take, Nat.min_eq_left run]
  refine ⟨Nat.le_trans run starts.length_le, fun c member => isOpening_of kind others ?_⟩
  rw [whole] at member
  exact List.all_eq_true.1 List.all_takeWhile c (List.mem_of_mem_take member)

theorem unopened_digits {digits : Nat} (run : digits ≤ digitCount text) :
    Unopened text digits :=
  unopened_of_takeWhile (by decide) run

theorem mem_downTo {low high n : Nat} : n ∈ downTo low high ↔ low ≤ n ∧ n ≤ high := by
  simp only [downTo, List.mem_reverse, List.mem_drop_iff_getElem, List.getElem_range,
    List.length_range]
  constructor
  · rintro ⟨i, hi, rfl⟩
    omega
  · rintro ⟨above, below⟩
    exact ⟨n - low, by omega, by omega⟩

theorem exists_of_findSome? {low high : Nat} {ends : Nat → Option Nat}
    (first : (downTo low high).findSome? ends = some found) :
    ∃ n, low ≤ n ∧ n ≤ high ∧ ends n = some found := by
  obtain ⟨n, member, here⟩ := List.exists_of_findSome?_eq_some first
  exact ⟨n, (mem_downTo.1 member).1, (mem_downTo.1 member).2, here⟩

theorem eq_some_or_of_orElse {first second : Option Nat}
    (either : (first <|> second) = some found) : first = some found ∨ second = some found := by
  cases first with
  | none => exact .inr either
  | some end_ => exact .inl either

theorem boundedEnd?_eq_some (bounded : boundedEnd? text width = some found) : width = found :=
  Option.some.inj (Option.ite_none_right_eq_some.1 bounded).2

theorem radixEnd?_unopened {marks : List Char} {isDigitOfBase : Char → Bool}
    (calm : marks.all (!isOpening ·) = true)
    (others : ['"', '\'', '/', backquote].all (!isDigitOfBase ·) = true)
    (found : radixEnd? marks isDigitOfBase text = some width) : 0 < width ∧ Unopened text width := by
  unfold radixEnd? at found
  split at found
  · rename_i mark rest
    obtain ⟨fits, same⟩ := Option.ite_none_right_eq_some.1 found
    simp only [Bool.and_eq_true, List.contains_iff_mem] at fits
    cases same
    refine ⟨Nat.succ_pos _, unopened_cons (by decide) (unopened_cons ?_ ?_)⟩
    · simpa using List.all_eq_true.1 calm mark fits.1.1
    · exact unopened_of_takeWhile others (Nat.le_refl _)
  · cases found

theorem unopened_exponent {sign : Nat} {mark : Char} {rest : List Char}
    (mantissa : Unopened text width) (left : text.drop width = mark :: rest)
    (letter : (mark == 'e' || mark == 'E') = true) (signed : Unopened rest sign)
    (ends : (downTo 1 (digitCount (rest.drop sign))).findSome? (fun digits =>
      boundedEnd? text (width + 1 + sign + digits)) = some found) :
    width ≤ found ∧ Unopened text found := by
  obtain ⟨digits, _, most, bounded⟩ := exists_of_findSome? ends
  have tail := unopened_cons (isOpening_of (fun c => c == 'e' || c == 'E') (by decide) letter)
    (signed.add (unopened_digits most))
  have whole := mantissa.add (left ▸ tail)
  have sum : width + (sign + digits + 1) = found := by
    rw [← boundedEnd?_eq_some bounded]
    omega
  exact ⟨by omega, sum ▸ whole⟩

theorem exponentEnd?_unopened (mantissa : Unopened text width)
    (ends : exponentEnd? text width = some found) : width ≤ found ∧ Unopened text found := by
  unfold exponentEnd? at ends
  rcases eq_some_or_of_orElse ends with exponent | plain
  · cases left : text.drop width with
    | nil =>
      rw [left] at exponent
      cases exponent
    | cons mark rest =>
      simp only [left] at exponent
      obtain ⟨letter, exponent⟩ := Option.ite_none_right_eq_some.1 exponent
      cases rest with
      | nil => exact unopened_exponent mantissa left letter (unopened_zero _) exponent
      | cons c rest =>
        simp only at exponent
        split at exponent
        · rename_i sign
          have quiet := isOpening_of (fun c => c == '-' || c == '+') (by decide) sign
          exact unopened_exponent mantissa left letter (unopened_cons quiet (unopened_zero rest))
            exponent
        · exact unopened_exponent mantissa left letter (unopened_zero _) exponent
  · have same := boundedEnd?_eq_some plain
    exact ⟨Nat.le_of_eq same, same ▸ mantissa⟩

theorem wholeEnd?_unopened (ends : wholeEnd? text = some found) :
    0 < found ∧ Unopened text found := by
  obtain ⟨whole, least, most, split⟩ := exists_of_findSome? ends
  have before := unopened_digits most
  rcases eq_some_or_of_orElse split with point | plain
  · cases left : text.drop whole with
    | nil =>
      rw [left] at point
      cases point
    | cons mark fraction =>
      simp only [left] at point
      split at point
      · rename_i same
        obtain ⟨rfl, rfl⟩ := List.cons.inj same
        obtain ⟨digits, _, few, exponent⟩ := exists_of_findSome? point
        have dotted : Unopened (text.drop whole) (digits + 1) := by
          rw [left]
          exact unopened_cons (by decide) (unopened_digits few)
        rw [Nat.add_assoc, Nat.add_comm 1 digits] at exponent
        refine (exponentEnd?_unopened (before.add dotted) exponent).imp_left fun later => ?_
        omega
      · cases point
  · obtain ⟨digits, _, few, exponent⟩ := exists_of_findSome? plain
    refine (exponentEnd?_unopened (before.add (unopened_digits few)) exponent).imp_left
      fun later => ?_
    omega

theorem fractionEnd?_unopened (ends : fractionEnd? text = some found) :
    0 < found ∧ Unopened text found := by
  unfold fractionEnd? at ends
  split at ends
  · obtain ⟨digits, _, few, exponent⟩ := exists_of_findSome? ends
    rw [Nat.add_comm 1 digits] at exponent
    refine (exponentEnd?_unopened (unopened_cons (by decide) (unopened_digits few)) exponent).imp_left
      fun later => ?_
    omega
  · cases ends

theorem numberWidth?_unopened (found : numberWidth? text = some width) :
    0 < width ∧ Unopened text width := by
  unfold numberWidth? at found
  rcases eq_some_or_of_orElse found with hex | found
  · exact radixEnd?_unopened (by decide) (by decide) hex
  rcases eq_some_or_of_orElse found with binary | found
  · exact radixEnd?_unopened (by decide) (by decide) binary
  rcases eq_some_or_of_orElse found with octal | found
  · exact radixEnd?_unopened (by decide) (by decide) octal
  rcases eq_some_or_of_orElse found with whole | fraction
  · exact wholeEnd?_unopened whole
  · exact fractionEnd?_unopened fraction

/-! ## Quoted and delimited texts -/

theorem stringRest?_bounds {mark : Char} (found : stringRest? mark text = some width) :
    0 < width ∧ width ≤ text.length := by
  fun_induction stringRest? mark text generalizing width with
  | case1 => cases found
  | case2 c rest ih | case5 c rest _ _ _ ih =>
    obtain ⟨inner, here, rfl⟩ := Option.map_eq_some_iff.1 found
    have bounds := ih here
    simp only [List.length_cons]
    omega
  | case3 =>
    cases found
    simp
  | case4 => cases found

theorem stringWidth?_bounds (found : stringWidth? text = some width) :
    0 < width ∧ width ≤ text.length := by
  unfold stringWidth? at found
  split at found
  · split at found
    · obtain ⟨inner, here, rfl⟩ := Option.map_eq_some_iff.1 found
      have bounds := stringRest?_bounds here
      rw [List.length_cons]
      omega
    · cases found
  · cases found

theorem regexRest?_bounds {bracketed : Bool} (found : regexRest? bracketed text = some width) :
    0 < width ∧ width ≤ text.length := by
  fun_induction regexRest? bracketed text generalizing width with
  | case1 | case2 | case4 | case7 => cases found
  | case3 bracketed c rest _ ih | case5 c rest _ _ ih | case8 c rest _ _ _ ih =>
    obtain ⟨inner, here, rfl⟩ := Option.map_eq_some_iff.1 found
    have bounds := ih here
    simp only [List.length_cons]
    omega
  | case6 =>
    cases found
    simp

theorem regexWidth?_bounds (found : regexWidth? text = some width) :
    0 < width ∧ width ≤ text.length := by
  unfold regexWidth? at found
  split at found
  · rename_i c rest
    split at found
    · cases found
    · obtain ⟨inner, here, rfl⟩ := Option.map_eq_some_iff.1 found
      have bounds := regexRest?_bounds here
      have flags := length_takeWhile_le Char.isAlpha ((c :: rest).drop inner)
      rw [List.length_drop] at flags
      simp only [List.length_cons] at bounds flags ⊢
      omega
  · cases found

theorem templateTextWidth_le (text : List Char) : templateTextWidth text ≤ text.length := by
  fun_induction templateTextWidth text with
  | case1 => exact Nat.le_refl 0
  | case2 c rest ih | case5 c rest _ _ _ ih => simp only [List.length_cons]; omega
  | case3 => exact Nat.zero_le _
  | case4 => exact Nat.zero_le _

theorem tagStringWidth?_bounds (found : tagStringWidth? text = some width) :
    0 < width ∧ width ≤ text.length := by
  unfold tagStringWidth? at found
  split at found
  · split at found
    · simp only at found
      split at found
      · cases found
        rw [List.length_cons]
        omega
      · cases found
    · cases found
  · cases found

/-! ## Operators -/

theorem assignWidth?_bounds (found : assignWidth? text = some width) :
    0 < width ∧ width ≤ text.length := by
  obtain ⟨mark, hit, rfl⟩ := Option.map_eq_some_iff.1 found
  have fits := List.find?_some hit
  rw [Bool.and_eq_true] at fits
  have inside := (List.isPrefixOf_iff_prefix.1 fits.1).length_le
  rw [List.length_append, String.length_toList, List.length_singleton] at inside
  exact ⟨Nat.succ_pos _, inside⟩

theorem unaryWidth?_bounds (found : unaryWidth? text = some width) :
    0 < width ∧ width ≤ text.length := by
  unfold unaryWidth? at found
  split at found
  · split at found
    · cases found
      simp
    · cases found
  · cases found

theorem markWidth?_bounds {mark : Char} {blocked : List Char}
    (found : markWidth? mark blocked text = some width) : 0 < width ∧ width ≤ text.length := by
  unfold markWidth? at found
  split at found
  · split at found
    · cases found
      simp
    · cases found
  · cases found

/-! ## Blanks and comments -/

theorem triviaWidth_le (mode : TriviaMode) (text : List Char) :
    triviaWidth mode text ≤ text.length := by
  fun_induction triviaWidth mode text with
  | case1 | case4 | case6 => exact Nat.zero_le _
  | case2 rest ih | case3 rest _ ih | case8 rest ih => exact Nat.add_le_add_right ih 2
  | case5 c rest _ _ _ ih | case7 c rest ih | case9 c rest _ ih => exact Nat.add_le_add_right ih 1

theorem triviaWidth_plain {c : Char} {rest : List Char}
    (noLine : ∀ tail, c = '/' → rest = '/' :: tail → False)
    (noBlock : ∀ tail, c = '/' → rest = '*' :: tail → False) :
    triviaWidth .plain (c :: rest) = if isWhiteSpace c then triviaWidth .plain rest + 1 else 0 := by
  rw [triviaWidth.eq_def]
  split <;> simp_all

theorem triviaWidth_inLine (c : Char) (rest : List Char) :
    triviaWidth .lineComment (c :: rest)
      = triviaWidth (if c == '\n' then .plain else .lineComment) rest + 1 := by
  rw [triviaWidth.eq_def]
  split <;> simp_all

theorem triviaWidth_inBlock {c : Char} {rest : List Char}
    (other : ∀ tail, c = '*' → rest = '/' :: tail → False) :
    triviaWidth .blockComment (c :: rest) = triviaWidth .blockComment rest + 1 := by
  rw [triviaWidth.eq_def]
  split <;> simp_all

/-! ## All terminals -/

/-- Lexemes of the class may have no characters. -/
def Terminal.nullable : Terminal → Bool
  | .symbol text => text == ""
  | .word choices => choices.contains ""
  | .command text => text == ""
  | .modifier choices _ => choices.contains ""
  | .trivia => true
  | _ => false

namespace Terminal

theorem scan_bounds {class_ : Terminal} (found : class_.scan text = some width) :
    width ≤ text.length ∧ (class_.nullable = false → 0 < width) := by
  have named : ∀ {width : Nat}, nonzero (nameAt text).length = some width →
      width ≤ text.length ∧ 0 < width := by
    intro width found
    obtain ⟨rfl, filled⟩ := nonzero_eq_some_iff.1 found
    exact ⟨length_nameAt_le text, filled⟩
  cases class_ with
  | symbol word =>
    obtain ⟨fits, same⟩ := Option.ite_none_right_eq_some.1 found
    exact Option.some.inj same ▸ ⟨length_le_of_isPrefixOf fits, length_pos_of_ne_empty⟩
  | word choices | modifier choices marks =>
    exact bounds_of_find? (fun _ fits => (Bool.and_eq_true_iff.1 fits).1) found
  | command word =>
    obtain ⟨inner, here, rfl⟩ := Option.map_eq_some_iff.1 found
    have blanks := length_takeWhile_le (fun c => c == ' ' || c == '\t') (text.drop inner)
    have bounds := bounds_of_find? (fun _ fits => (Bool.and_eq_true_iff.1 fits).1) here
    rw [List.length_drop] at blanks
    refine ⟨by omega, fun filled => Nat.lt_of_lt_of_le (bounds.2 ?_) (Nat.le_add_right _ _)⟩
    rw [List.contains_cons, beq_eq_false_iff_ne.2 (beq_eq_false_iff_ne.1 filled).symm]
    rfl
  | asyncFunction =>
    obtain ⟨fits, same⟩ := Option.ite_none_right_eq_some.1 found
    have inside := length_le_of_isPrefixOf (Bool.and_eq_true_iff.1 fits).1
    exact Option.some.inj same ▸ ⟨inside, fun _ => by decide⟩
  | identifier =>
    rw [scan] at found
    split at found
    · cases found
    · exact (named found).imp_right fun filled _ => filled
  | name => exact (named found).imp_right fun filled _ => filled
  | number =>
    have bounds := numberWidth?_unopened found
    exact ⟨bounds.2.inside, fun _ => bounds.1⟩
  | string => exact ⟨(stringWidth?_bounds found).2, fun _ => (stringWidth?_bounds found).1⟩
  | regex => exact ⟨(regexWidth?_bounds found).2, fun _ => (regexWidth?_bounds found).1⟩
  | templateText =>
    obtain ⟨rfl, filled⟩ := nonzero_eq_some_iff.1 found
    exact ⟨templateTextWidth_le text, fun _ => filled⟩
  | tagPart =>
    cases text with
    | nil => cases found
    | cons c rest =>
      obtain ⟨_, same⟩ := Option.ite_none_right_eq_some.1 found
      have inside := length_takeWhile_le (fun c => isNamePart c || c == '-') rest
      cases same
      rw [List.length_cons]
      omega
  | tagText =>
    obtain ⟨rfl, filled⟩ := nonzero_eq_some_iff.1 found
    exact ⟨length_takeWhile_le _ text, fun _ => filled⟩
  | tagString =>
    exact ⟨(tagStringWidth?_bounds found).2, fun _ => (tagStringWidth?_bounds found).1⟩
  | assign => exact ⟨(assignWidth?_bounds found).2, fun _ => (assignWidth?_bounds found).1⟩
  | equals | question => exact ⟨(markWidth?_bounds found).2, fun _ => (markWidth?_bounds found).1⟩
  | infixMark =>
    exact (bounds_of_find? (fun _ fits => (Bool.and_eq_true_iff.1 fits).1) found).imp_right
      fun filled _ => filled (by decide)
  | unaryMark => exact ⟨(unaryWidth?_bounds found).2, fun _ => (unaryWidth?_bounds found).1⟩
  | updateMark =>
    obtain ⟨fits, same⟩ := Option.ite_none_right_eq_some.1 found
    have inside : 2 ≤ text.length :=
      (Bool.or_eq_true_iff.1 fits).elim length_le_of_isPrefixOf length_le_of_isPrefixOf
    exact Option.some.inj same ▸ ⟨inside, fun _ => by decide⟩
  | oneOf chars =>
    cases text with
    | nil => cases found
    | cons c rest =>
      obtain ⟨_, same⟩ := Option.ite_none_right_eq_some.1 found
      exact Option.some.inj same ▸ ⟨Nat.succ_pos _, fun _ => by decide⟩
  | trivia => exact ⟨Option.some.inj found ▸ triviaWidth_le .plain text, fun filled => by cases filled⟩

/-- A lexeme is no longer than the text. -/
theorem scan_le {class_ : Terminal} (found : class_.scan text = some width) :
    width ≤ text.length := (scan_bounds found).1

/-- A lexeme has characters, unless its class admits none. -/
theorem scan_pos {class_ : Terminal} (filled : class_.nullable = false)
    (found : class_.scan text = some width) : 0 < width := (scan_bounds found).2 filled

end Terminal

end TemplateLint.Grammar
