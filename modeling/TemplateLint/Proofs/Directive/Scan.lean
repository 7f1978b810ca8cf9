import TemplateLint.Directive.Comment
import TemplateLint.Proofs.Grammar.Scan

/-!
# Scanning for comments

The search for comments goes over a quoted text or a comment as a whole (`commentsFrom_of_lexeme`),
and over anything else character by character (`commentsFrom_pass`). A lexeme of most classes holds
no place where a quoted text or a comment could start (`lexeme?_eq_none_of_plain`).
-/

namespace TemplateLint.Directive

open TemplateLint.Text TemplateLint.Grammar

variable {c mark : Char} {text rest : List Char} {width found : Nat}

/-! ## Quoted texts -/

section Closed

variable {mark : Char} {multiline : Bool}

theorem closedWidth?_mark (rest : List Char) :
    closedWidth? mark multiline (mark :: rest) = some 1 := by
  cases rest <;> simp [closedWidth?]

theorem closedWidth?_escape (other : mark ≠ '\\') {next : Char}
    (line : multiline = true ∨ next ≠ '\n') (rest : List Char) :
    closedWidth? mark multiline ('\\' :: next :: rest)
      = (closedWidth? mark multiline rest).map (· + 2) := by
  have escapes : ('\\' == mark) = false := by simpa using other.symm
  have goes : (next == '\n' && !multiline) = false := by
    rcases line with rfl | line
    · simp
    · simp [line]
  simp [closedWidth?, escapes, goes]

theorem closedWidth?_plain (other : c ≠ mark) (plain : c ≠ '\\')
    (line : multiline = true ∨ c ≠ '\n') (rest : List Char) :
    closedWidth? mark multiline (c :: rest)
      = (closedWidth? mark multiline rest).map (· + 1) := by
  have goes : (c == '\n' && !multiline) = false := by
    rcases line with rfl | line
    · simp
    · simp [line]
  cases rest <;> simp [closedWidth?, other, plain, goes]

theorem closedWidth?_append (escape : mark ≠ '\\') : ∀ {piece : List Char} (rest : List Char),
    mark ∉ piece → piece.getLast? ≠ some '\\' → (multiline = true ∨ '\n' ∉ piece) →
      closedWidth? mark multiline (piece ++ rest)
        = (closedWidth? mark multiline rest).map (· + piece.length)
  | [], rest, _, _, _ => by simp
  | [c], rest, free, last, line => by
    have other : mark ≠ c := by simpa using free
    have plain : c ≠ '\\' := by simpa using last
    exact closedWidth?_plain other.symm plain (line.imp_right (by simp [eq_comm])) rest
  | c :: next :: piece, rest, free, last, line => by
    simp only [List.mem_cons, not_or] at free line
    obtain ⟨other, otherNext, free⟩ := free
    rw [List.getLast?_cons_cons] at last
    by_cases plain : c = '\\'
    · subst plain
      have inner : piece.getLast? ≠ some '\\' := by
        intro ends
        apply last
        cases piece with
        | nil => cases ends
        | cons first piece => rwa [List.getLast?_cons_cons]
      rw [List.cons_append, List.cons_append,
        closedWidth?_escape escape (line.imp_right fun lines => Ne.symm lines.2.1),
        closedWidth?_append escape rest free inner (line.imp_right fun lines => lines.2.2),
        Option.map_map]
      rfl
    · rw [List.cons_append, closedWidth?_plain (Ne.symm other) plain
          (line.imp_right fun lines => Ne.symm lines.1),
        closedWidth?_append escape rest (by simp [otherNext, free]) last
          (line.imp_right fun lines => by simp [lines.2]),
        Option.map_map]
      rfl

theorem closedWidth?_of_stringRest? (escape : mark ≠ '\\')
    (found : stringRest? mark text = some width) (line : '\n' ∉ text.take width) :
    closedWidth? mark false text = some width := by
  fun_induction stringRest? mark text generalizing width with
  | case1 => cases found
  | case2 c rest ih =>
    obtain ⟨inner, here, rfl⟩ := Option.map_eq_some_iff.1 found
    simp only [List.take_succ_cons, List.mem_cons, not_or] at line
    rw [closedWidth?_escape escape (.inr (Ne.symm line.2.1)), ih here line.2.2]
    rfl
  | case3 rest c _ closes =>
    cases found
    rw [eq_of_beq closes, closedWidth?_mark]
  | case4 => cases found
  | case5 c rest _ other plain ih =>
    obtain ⟨inner, here, rfl⟩ := Option.map_eq_some_iff.1 found
    simp only [List.take_succ_cons, List.mem_cons, not_or] at line
    simp only [Bool.or_eq_true, beq_iff_eq, not_or] at plain
    rw [closedWidth?_plain (by simpa using other) plain.2 (.inr plain.1), ih here line.2]
    rfl

theorem closedWidth?_templateText (text : List Char) :
    closedWidth? templateMark true text
      = (closedWidth? templateMark true (text.drop (templateTextWidth text))).map
        (· + templateTextWidth text) := by
  fun_induction templateTextWidth text with
  | case1 => rfl
  | case2 c rest ih =>
    rw [closedWidth?_escape (by decide) (.inl rfl), ih, Option.map_map]
    rfl
  | case3 | case4 => simp
  | case5 c rest _ _ inside ih =>
    simp only [Bool.or_eq_true, beq_iff_eq, not_or] at inside
    have other : c ≠ templateMark := inside.1
    rw [closedWidth?_plain other inside.2 (.inl rfl), ih, Option.map_map]
    rfl

end Closed

/-! ## What starts a text -/

theorem lexeme?_of_not_isOpening (quiet : isOpening c = false) (rest : List Char) :
    lexeme? (c :: rest) = none := by
  simp only [isOpening, Bool.or_eq_false_iff, beq_eq_false_iff_ne] at quiet
  obtain ⟨⟨⟨double, single⟩, slash⟩, template⟩ := quiet
  have template : c ≠ templateMark := template
  unfold lexeme?
  split <;> simp_all

theorem lexeme?_slash (quiet : notBefore ['/', '*'] rest = true) :
    lexeme? ('/' :: rest) = none := by
  cases rest with
  | nil => decide
  | cons c rest =>
    simp only [notBefore, List.contains_cons, List.contains_nil, Bool.or_false, Bool.not_eq_true',
      Bool.or_eq_false_iff, beq_eq_false_iff_ne] at quiet
    unfold lexeme?
    split
    case h_5 same =>
      cases same
      rfl
    all_goals simp_all

theorem lexeme?_quote (quotes : (mark == '"' || mark == '\'') = true) (rest : List Char) :
    lexeme? (mark :: rest) = (closedWidth? mark false rest).map quotedLexeme := by
  rcases Bool.or_eq_true_iff.1 quotes with double | single
  · rw [eq_of_beq double]
    rfl
  · rw [eq_of_beq single]
    rfl

theorem lexeme?_template (rest : List Char) :
    lexeme? (templateMark :: rest) = (closedWidth? templateMark true rest).map quotedLexeme := rfl

theorem lexeme?_line (rest : List Char) :
    lexeme? ('/' :: '/' :: rest)
      = some ⟨(rest.takeWhile (· != '\n')).length + 2, some (.line, rest.takeWhile (· != '\n'))⟩ :=
  rfl

theorem lexeme?_block (rest : List Char) :
    lexeme? ('/' :: '*' :: rest)
      = (blockValue? rest).map fun value => ⟨value.length + 4, some (.block, value)⟩ := rfl

theorem take_of_blockValue? {text value : List Char} (found : blockValue? text = some value) :
    text.take (value.length + 2) = value ++ ['*', '/'] := by
  fun_induction blockValue? text generalizing value with
  | case1 => cases found
  | case2 rest =>
    cases found
    rfl
  | case3 c rest other ih =>
    obtain ⟨inner, here, rfl⟩ := Option.map_eq_some_iff.1 found
    simp [ih here]

theorem lexeme?_of_stringWidth?
    (found : stringWidth? text = some width) (line : '\n' ∉ text.take width) :
    lexeme? text = some ⟨width, none⟩ := by
  unfold stringWidth? at found
  split at found
  · rename_i mark rest
    split at found
    · rename_i quotes
      obtain ⟨inner, here, rfl⟩ := Option.map_eq_some_iff.1 found
      have escape : mark ≠ '\\' := by
        rintro rfl
        cases quotes
      simp only [List.take_succ_cons, List.mem_cons, not_or] at line
      rw [lexeme?_quote quotes, closedWidth?_of_stringRest? escape here line.2]
      rfl
    · cases found
  · cases found

theorem exists_of_takeWhile_lt (closed : (text.takeWhile (· != mark)).length < text.length) :
    ∃ value more, mark ∉ value ∧ text = value ++ mark :: more
      ∧ (text.takeWhile (· != mark)).length = value.length := by
  have split := List.takeWhile_append_dropWhile (p := (· != mark)) (l := text)
  cases left : text.dropWhile (· != mark) with
  | nil =>
    rw [left, List.append_nil] at split
    rw [split] at closed
    exact absurd closed (Nat.lt_irrefl _)
  | cons c more =>
    have same : c = mark := by
      have stops := List.head?_dropWhile_not (· != mark) text
      simpa [left] using stops
    refine ⟨text.takeWhile (· != mark), more, ?_, ?_, rfl⟩
    · intro member
      have other := List.all_eq_true.1 List.all_takeWhile mark member
      simp at other
    · rw [same] at left
      rw [← left, split]

theorem lexeme?_of_tagStringWidth? (found : tagStringWidth? text = some width)
    (line : '\n' ∉ text.take width) (last : (text.take width).dropLast.getLast? ≠ some '\\') :
    lexeme? text = some ⟨width, none⟩ := by
  unfold tagStringWidth? at found
  split at found
  · rename_i mark rest
    split at found
    · rename_i quotes
      simp only at found
      split at found
      · rename_i closed
        cases found
        have escape : mark ≠ '\\' := by
          rintro rfl
          cases quotes
        obtain ⟨value, more, free, rfl, inner⟩ := exists_of_takeWhile_lt closed
        simp only [inner] at line last ⊢
        have written : (mark :: (value ++ mark :: more)).take (value.length + 2)
            = mark :: value ++ [mark] := by
          rw [List.take_succ_cons, List.take_length_add_append]
          rfl
        rw [written] at line last
        simp only [List.cons_append, List.mem_cons, List.mem_append, not_or] at line
        rw [List.dropLast_concat] at last
        have plain : value.getLast? ≠ some '\\' := by
          intro ends
          apply last
          rw [List.getLast?_cons, ends]
          rfl
        rw [lexeme?_quote quotes, closedWidth?_append escape _ free plain (.inr line.2.1),
          closedWidth?_mark, Option.map_some, Option.map_some, quotedLexeme]
        congr 2
        omega
      · cases found
    · cases found
  · cases found

/-! ## The search -/

section Search

variable (index : LineIndex)

theorem commentsFrom_inside (offset inside : Nat) (text : List Char) :
    commentsFrom index offset inside text
      = commentsFrom index (offset + inside) 0 (text.drop inside) := by
  induction text generalizing offset inside with
  | nil => cases inside <;> rfl
  | cons c rest ih =>
    cases inside with
    | zero => rfl
    | succ inside =>
      rw [commentsFrom, ih, List.drop_succ_cons]
      congr 1
      omega

/-- The comment that a lexeme at an offset is, if it is one. -/
def foundAt (offset : Nat) (lexeme : Lexeme) : List Comment :=
  lexeme.comment?.toList.map fun (kind, value) =>
    ⟨kind, value, (index.position offset).line, (index.position (offset + lexeme.width)).line⟩

/-- A lexeme that is a comment, or that hides comments, is passed as a whole. -/
theorem commentsFrom_of_lexeme {offset : Nat} {lexeme : Lexeme}
    (found : lexeme? text = some lexeme) (filled : 0 < lexeme.width) :
    commentsFrom index offset 0 text
      = foundAt index offset lexeme
        ++ commentsFrom index (offset + lexeme.width) 0 (text.drop lexeme.width) := by
  cases text with
  | nil => cases found
  | cons c rest =>
    obtain ⟨inner, whole⟩ := Nat.exists_eq_add_of_lt filled
    rw [Nat.zero_add] at whole
    simp only [commentsFrom, found]
    rw [commentsFrom_inside, foundAt, whole, Nat.add_sub_cancel, List.drop_succ_cons,
      Nat.add_assoc offset 1 inner, Nat.add_comm 1 inner]

/-- Where no such lexeme starts, no comment is found. -/
theorem commentsFrom_pass {offset : Nat} (quiet : ∀ i < width, lexeme? (text.drop i) = none) :
    commentsFrom index offset 0 text
      = commentsFrom index (offset + width) 0 (text.drop width) := by
  induction width generalizing offset text with
  | zero => rfl
  | succ width ih =>
    cases text with
    | nil => rfl
    | cons c rest =>
      have here : lexeme? (c :: rest) = none := quiet 0 (Nat.succ_pos width)
      simp only [commentsFrom, here]
      rw [ih fun i below => quiet (i + 1) (Nat.succ_lt_succ below), List.drop_succ_cons]
      congr 1
      omega

end Search

/-! ## Lexemes in which nothing starts -/

/-- A text in which no quoted text or comment starts, whatever follows it. -/
def isCalm : List Char → Bool
  | [] => true
  | '/' :: c :: rest => c != '/' && c != '*' && isCalm (c :: rest)
  | c :: rest => !isOpening c && isCalm rest

/-- No quoted text or comment starts in the first characters of a text. -/
def Quiet (text : List Char) (width : Nat) : Prop := ∀ i < width, lexeme? (text.drop i) = none

theorem quiet_cons (here : lexeme? (c :: rest) = none) (later : Quiet rest width) :
    Quiet (c :: rest) (width + 1) := by
  intro i below
  cases i with
  | zero => exact here
  | succ i => exact later i (Nat.lt_of_succ_lt_succ below)

theorem quiet_of_isCalm {word : List Char} (calm : isCalm word = true) :
    Quiet (word ++ rest) word.length := by
  fun_induction isCalm word with
  | case1 =>
    intro i below
    cases below
  | case2 c word ih =>
    simp only [Bool.and_eq_true, bne_iff_ne, ne_eq] at calm
    refine quiet_cons (lexeme?_slash ?_) (ih calm.2)
    simp [notBefore, calm.1]
  | case3 c word _ ih =>
    simp only [Bool.and_eq_true, Bool.not_eq_true'] at calm
    exact quiet_cons (lexeme?_of_not_isOpening calm.1 _) (ih calm.2)

theorem quiet_of_unopened (unopened : Unopened text width) : Quiet text width := by
  intro i below
  have inside := unopened.inside
  rw [List.drop_eq_getElem_cons (by omega)]
  exact lexeme?_of_not_isOpening
    (unopened.each _ (List.mem_take_iff_getElem.2 ⟨i, by omega, rfl⟩)) _

theorem isOpening_of_isNamePart (part : isNamePart c = true) : isOpening c = false :=
  isOpening_of isNamePart (by decide) part

/-! ## All classes -/

/-- The classes whose lexemes hold no place where a quoted text or a comment could start. -/
def isPlain : Terminal → Bool
  | .symbol text | .command text => isCalm text.toList
  | .word choices | .modifier choices _ => choices.all (isCalm ·.toList)
  | .string | .regex | .templateText | .tagText | .tagString | .oneOf _ | .trivia => false
  | _ => true

theorem quiet_of_prefix {word : String} (calm : isCalm word.toList = true)
    (begins : word.toList.isPrefixOf text = true) : Quiet text word.length := by
  obtain ⟨rest, rfl⟩ := List.isPrefixOf_iff_prefix.1 begins
  rw [← String.length_toList]
  exact quiet_of_isCalm calm

theorem wordWidth?_quiet {choices : List String} (calm : choices.all (isCalm ·.toList) = true)
    (found : wordWidth? choices text = some width) :
    Quiet text width := by
  obtain ⟨word, member, fits, rfl⟩ := exists_of_find?_map found
  exact quiet_of_prefix (List.all_eq_true.1 calm word member) (Bool.and_eq_true_iff.1 fits).1

theorem Quiet.add {more : Nat} (former : Quiet text width) (latter : Quiet (text.drop width) more) :
    Quiet text (width + more) := by
  intro i below
  by_cases early : i < width
  · exact former i early
  · have late := latter (i - width) (by omega)
    rwa [List.drop_drop, Nat.add_sub_cancel' (by omega)] at late

theorem unopened_nameAt (text : List Char) : Unopened text (nameAt text).length := by
  cases text with
  | nil => exact unopened_zero _
  | cons c rest =>
    rw [nameAt]
    split
    · rename_i starts
      have part : isNamePart c = true := by rw [isNamePart, starts, Bool.true_or]
      exact unopened_cons (isOpening_of_isNamePart part)
        (unopened_of_takeWhile (by decide) (Nat.le_refl _))
    · exact unopened_zero _

theorem quiet_one (calm : isOpening c = false) (rest : List Char) :
    Quiet (c :: rest) 1 :=
  quiet_of_unopened (unopened_cons calm (unopened_zero rest))

theorem markWidth?_quiet {blocked : List Char} (calm : isOpening mark = false)
    (found : markWidth? mark blocked text = some width) : Quiet text width := by
  unfold markWidth? at found
  split at found
  · split at found
    · rename_i c rest fits
      cases found
      rw [eq_of_beq (Bool.and_eq_true_iff.1 fits).1]
      exact quiet_one calm rest
    · cases found
  · cases found

theorem assignWidth?_quiet (found : assignWidth? text = some width) : Quiet text width := by
  have calm : ∀ mark ∈ assignMarks, isCalm (mark.toList ++ ['=']) = true := by decide
  obtain ⟨mark, hit, rfl⟩ := Option.map_eq_some_iff.1 found
  have fits := List.find?_some hit
  rw [Bool.and_eq_true] at fits
  obtain ⟨rest, rfl⟩ := List.isPrefixOf_iff_prefix.1 fits.1
  have quiet : Quiet (mark.toList ++ ['='] ++ rest) (mark.toList ++ ['=']).length :=
    quiet_of_isCalm (calm mark (List.mem_of_find?_eq_some hit))
  rwa [List.length_append, String.length_toList] at quiet

theorem infixWidth?_quiet (found : infixWidth? text = some width) : Quiet text width := by
  have calm : ∀ mark ∈ infixMarks, mark = "/" ∨ isCalm mark.toList = true := by decide
  obtain ⟨mark, member, fits, rfl⟩ := exists_of_find?_map found
  obtain ⟨begins, free⟩ := Bool.and_eq_true_iff.1 fits
  rcases calm mark member with rfl | calm
  · obtain ⟨rest, rfl⟩ := List.isPrefixOf_iff_prefix.1 begins
    refine quiet_cons (lexeme?_slash ?_) fun i below => absurd below (Nat.not_lt_zero i)
    cases rest with
    | nil => rfl
    | cons c rest =>
      have free : (!(['/', '*', '='].contains c)) = true := free
      simp only [List.contains_cons, List.contains_nil, Bool.not_eq_true', Bool.or_eq_false_iff]
        at free
      show (!(['/', '*'].contains c)) = true
      simp only [List.contains_cons, List.contains_nil, free.1, free.2.1, Bool.or_self, Bool.not_false]
  · exact quiet_of_prefix calm begins

theorem lexeme?_eq_none_of_plain {class_ : Terminal} (plain : isPlain class_ = true)
    (scanned : class_.scan text = some width) :
    Quiet text width := by
  cases class_ with
  | symbol word =>
    rw [Terminal.scan] at scanned
    split at scanned
    · rename_i begins
      exact Option.some.inj scanned ▸ quiet_of_prefix plain begins
    · cases scanned
  | word choices => exact wordWidth?_quiet plain scanned
  | command word =>
    obtain ⟨inner, here, rfl⟩ := Option.map_eq_some_iff.1 scanned
    have calm : isCalm word.toList = true := plain
    -- the blanks behind the word belong to the lexeme
    refine (wordWidth?_quiet (by simp [calm]) here).add (quiet_of_unopened ?_)
    exact unopened_of_takeWhile (by decide) (Nat.le_refl _)
  | modifier choices marks =>
    obtain ⟨word, member, fits, rfl⟩ := exists_of_find?_map scanned
    exact quiet_of_prefix (List.all_eq_true.1 plain word member) (Bool.and_eq_true_iff.1 fits).1
  | asyncFunction =>
    rw [Terminal.scan] at scanned
    split at scanned
    · rename_i begins
      exact Option.some.inj scanned ▸
        quiet_of_prefix (by decide) (Bool.and_eq_true_iff.1 begins).1
    · cases scanned
  | identifier =>
    rw [Terminal.scan] at scanned
    split at scanned
    · cases scanned
    · exact (nonzero_eq_some_iff.1 scanned).1 ▸ quiet_of_unopened (unopened_nameAt text)
  | name => exact (nonzero_eq_some_iff.1 scanned).1 ▸ quiet_of_unopened (unopened_nameAt text)
  | number => exact quiet_of_unopened (numberWidth?_unopened scanned).2
  | tagPart =>
    cases text with
    | nil => cases scanned
    | cons c rest =>
      simp only [Terminal.scan] at scanned
      split at scanned
      · rename_i starts
        cases scanned
        rw [Nat.add_comm]
        have part : isNamePart c = true := by rw [isNamePart, starts, Bool.true_or]
        exact quiet_of_unopened (unopened_cons (isOpening_of_isNamePart part)
          (unopened_of_takeWhile (by decide) (Nat.le_refl _)))
      · cases scanned
  | assign => exact assignWidth?_quiet scanned
  | equals | question => exact markWidth?_quiet (by decide) scanned
  | infixMark => exact infixWidth?_quiet scanned
  | unaryMark =>
    cases text with
    | nil => cases scanned
    | cons c rest =>
      simp only [Terminal.scan, unaryWidth?] at scanned
      split at scanned
      · rename_i fits
        cases scanned
        refine quiet_one (isOpening_of
          (fun c => c == '!' || c == '~' || c == '+' || c == '-') (by decide) ?_) rest
        revert fits
        simp only [Bool.or_eq_true, Bool.and_eq_true]
        rintro ((bang | tilde) | ⟨sign, _⟩)
        · exact .inl (.inl (.inl bang))
        · exact .inl (.inl (.inr tilde))
        · exact sign.imp_left .inr
      · cases scanned
  | updateMark =>
    rw [Terminal.scan] at scanned
    split at scanned
    · rename_i begins
      rcases Bool.or_eq_true_iff.1 begins with plus | minus
      · exact Option.some.inj scanned ▸ quiet_of_prefix (by decide) plus
      · exact Option.some.inj scanned ▸ quiet_of_prefix (by decide) minus
    · cases scanned
  | _ => cases plain

end TemplateLint.Directive
