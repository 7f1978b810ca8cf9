import TemplateLint.Proofs.Directive.Scan
import TemplateLint.Proofs.Grammar.Leaves

/-!
# Comments that are found and comments that are read

The search for comments knows quotes and templates, but not the syntax around them. It agrees with
the grammar on an accepted program (`comments_eq_consumed`) whose lexemes are evident
(`isEvident`), for the search cannot know that a slash starts a regular expression, that a text
stands between tags, or where a template ends that holds another one.

At each lexeme of the program the search is at its start, or in a template (`Resumes`).
-/

namespace TemplateLint.Directive

open TemplateLint.Text TemplateLint.Grammar TemplateLint.Syntax

/-! ## The comments of trivia -/

/-- The comment between two offsets, with the lines on which it starts and ends. -/
def commentAt (index : LineIndex) (kind : CommentKind) (value : List Char) (start stop : Nat) :
    Comment :=
  ⟨kind, value, (index.position start).line, (index.position stop).line⟩

mutual

/-- The comments in the trivia at the start of a text. -/
def triviaComments (index : LineIndex) (offset : Nat) : List Char → List Comment
  | '/' :: '/' :: rest => lineComments index offset [] (offset + 2) rest
  | '/' :: '*' :: rest =>
    if closesComment rest then blockComments index offset [] (offset + 2) rest else []
  | c :: rest => if isWhiteSpace c then triviaComments index (offset + 1) rest else []
  | [] => []

def lineComments (index : LineIndex) (start : Nat) (value : List Char) (offset : Nat) :
    List Char → List Comment
  | [] => [commentAt index .line value start offset]
  | c :: rest =>
    if c == '\n' then
      commentAt index .line value start offset :: triviaComments index (offset + 1) rest
    else lineComments index start (value ++ [c]) (offset + 1) rest

def blockComments (index : LineIndex) (start : Nat) (value : List Char) (offset : Nat) :
    List Char → List Comment
  | '*' :: '/' :: rest =>
    commentAt index .block value start (offset + 2) :: triviaComments index (offset + 2) rest
  | c :: rest => blockComments index start (value ++ [c]) (offset + 1) rest
  | [] => []

end

section Trivia

variable (index : LineIndex)

theorem triviaComments_plain (offset : Nat) {c : Char} {rest : List Char}
    (noLine : ∀ tail, c = '/' → rest = '/' :: tail → False)
    (noBlock : ∀ tail, c = '/' → rest = '*' :: tail → False) :
    triviaComments index offset (c :: rest)
      = if isWhiteSpace c then triviaComments index (offset + 1) rest else [] := by
  rw [triviaComments.eq_def]
  split <;> simp_all

theorem triviaWidth_line (text : List Char) :
    triviaWidth .lineComment text
      = (text.takeWhile (· != '\n')).length
        + triviaWidth .plain (text.drop (text.takeWhile (· != '\n')).length) := by
  induction text with
  | nil => rfl
  | cons c rest ih =>
    by_cases ends : c = '\n'
    · subst ends
      have goes : triviaWidth .plain ('\n' :: rest) = triviaWidth .plain rest + 1 := rfl
      simp [triviaWidth_inLine, goes]
    · simp [triviaWidth_inLine, ends, ih]
      omega

theorem lineComments_eq (start : Nat) (value : List Char) (offset : Nat) (text : List Char) :
    lineComments index start value offset text
      = commentAt index .line (value ++ text.takeWhile (· != '\n')) start
          (offset + (text.takeWhile (· != '\n')).length)
        :: triviaComments index (offset + (text.takeWhile (· != '\n')).length)
          (text.drop (text.takeWhile (· != '\n')).length) := by
  induction text generalizing value offset with
  | nil =>
    rw [List.takeWhile_nil, List.append_nil]
    rfl
  | cons c rest ih =>
    by_cases ends : c = '\n'
    · subst ends
      rw [List.takeWhile_cons_of_neg (by decide), List.append_nil]
      rfl
    · have goes : lineComments index start value offset (c :: rest)
          = lineComments index start (value ++ [c]) (offset + 1) rest := if_neg (by simpa using ends)
      have sum (width : Nat) : offset + 1 + width = offset + (width + 1) := by omega
      rw [goes, ih, List.takeWhile_cons_of_pos (by simpa using ends), List.append_assoc, sum]
      rfl

theorem closesComment_eq_isSome (text : List Char) :
    closesComment text = (blockValue? text).isSome := by
  fun_induction blockValue? text with
  | case1 => rfl
  | case2 => rfl
  | case3 c rest other ih =>
    rw [closesComment, ih, Option.isSome_map]
    exact other

theorem triviaWidth_block {text value : List Char} (found : blockValue? text = some value) :
    triviaWidth .blockComment text
      = value.length + 2 + triviaWidth .plain (text.drop (value.length + 2)) := by
  fun_induction blockValue? text generalizing value with
  | case1 => cases found
  | case2 rest =>
    cases found
    have ends : triviaWidth .blockComment ('*' :: '/' :: rest) = triviaWidth .plain rest + 2 := rfl
    simp [ends, Nat.add_comm]
  | case3 c rest other ih =>
    obtain ⟨inner, here, rfl⟩ := Option.map_eq_some_iff.1 found
    rw [triviaWidth_inBlock other, ih here, List.length_cons, List.drop_succ_cons]
    omega

theorem blockComments_eq (start : Nat) (before : List Char) (offset : Nat)
    {text value : List Char} (found : blockValue? text = some value) :
    blockComments index start before offset text
      = commentAt index .block (before ++ value) start (offset + (value.length + 2))
        :: triviaComments index (offset + (value.length + 2))
          (text.drop (value.length + 2)) := by
  fun_induction blockValue? text generalizing value before offset with
  | case1 => cases found
  | case2 rest =>
    cases found
    rw [List.append_nil]
    rfl
  | case3 c rest other ih =>
    obtain ⟨inner, here, rfl⟩ := Option.map_eq_some_iff.1 found
    have sum : offset + 1 + (inner.length + 2) = offset + (inner.length + 1 + 2) := by omega
    rw [blockComments, ih _ _ here, sum, List.append_assoc]
    · rfl
    · exact other

theorem commentsFrom_comment {offset width : Nat} {text value : List Char} {kind : CommentKind}
    (filled : 0 < width) (found : lexeme? text = some ⟨width, some (kind, value)⟩)
    (first : triviaComments index offset text
      = commentAt index kind value offset (offset + width)
        :: triviaComments index (offset + width) (text.drop width))
    (passed : triviaWidth .plain text = width + triviaWidth .plain (text.drop width))
    (behind : commentsFrom index (offset + width) 0 (text.drop width)
      = triviaComments index (offset + width) (text.drop width)
        ++ commentsFrom index (offset + width + triviaWidth .plain (text.drop width)) 0
          ((text.drop width).drop (triviaWidth .plain (text.drop width)))) :
    commentsFrom index offset 0 text
      = triviaComments index offset text
        ++ commentsFrom index (offset + triviaWidth .plain text) 0
          (text.drop (triviaWidth .plain text)) := by
  rw [commentsFrom_of_lexeme index found filled, behind, first, passed, List.drop_drop,
    Nat.add_assoc]
  rfl

theorem commentsFrom_trivia (offset : Nat) (text : List Char) :
    commentsFrom index offset 0 text
      = triviaComments index offset text
        ++ commentsFrom index (offset + triviaWidth .plain text) 0
          (text.drop (triviaWidth .plain text)) := by
  -- on the length, since a comment takes the search on by more than one character
  induction size : text.length using Nat.strongRecOn generalizing offset text with
  | ind size ih =>
    subst size
    by_cases line : ∃ rest, text = '/' :: '/' :: rest
    · obtain ⟨rest, rfl⟩ := line
      refine commentsFrom_comment index (Nat.succ_pos _) (lexeme?_line rest) ?_ ?_
        (ih _ ?_ _ _ rfl)
      · have enters : triviaComments index offset ('/' :: '/' :: rest)
            = lineComments index offset [] (offset + 2) rest := rfl
        rw [enters, lineComments_eq, List.nil_append]
        simp only [List.drop_succ_cons, Nat.add_assoc, Nat.add_comm 2]
      · have enters : triviaWidth .plain ('/' :: '/' :: rest)
            = triviaWidth .lineComment rest + 2 := rfl
        rw [enters, triviaWidth_line, List.drop_succ_cons, List.drop_succ_cons]
        omega
      · simp only [List.length_drop, List.length_cons]
        omega
    by_cases block : ∃ rest, text = '/' :: '*' :: rest
    · obtain ⟨rest, rfl⟩ := block
      have enters : triviaWidth .plain ('/' :: '*' :: rest)
          = if (blockValue? rest).isSome then triviaWidth .blockComment rest + 2 else 0 := by
        rw [← closesComment_eq_isSome]
        rfl
      have comments : triviaComments index offset ('/' :: '*' :: rest)
          = if (blockValue? rest).isSome then blockComments index offset [] (offset + 2) rest
            else [] := by
        rw [← closesComment_eq_isSome]
        rfl
      cases value? : blockValue? rest with
      | none => simp [enters, comments, value?]
      | some value =>
        have found : lexeme? ('/' :: '*' :: rest)
            = some ⟨value.length + 4, some (.block, value)⟩ := by
          rw [lexeme?_block, value?]
          rfl
        refine commentsFrom_comment index (Nat.succ_pos _) found ?_ ?_ (ih _ ?_ _ _ rfl)
        · rw [comments, value?, Option.isSome_some, if_pos rfl, blockComments_eq index _ _ _ value?,
            List.nil_append, List.drop_succ_cons, List.drop_succ_cons]
          have sum : offset + 2 + (value.length + 2) = offset + (value.length + 4) := by omega
          rw [sum]
        · rw [enters, value?, Option.isSome_some, if_pos rfl, triviaWidth_block value?,
            List.drop_succ_cons, List.drop_succ_cons]
          omega
        · simp only [List.length_drop, List.length_cons]
          omega
    cases text with
    | nil => rfl
    | cons c rest =>
      have noLine : ∀ tail, c = '/' → rest = '/' :: tail → False := by
        rintro tail rfl rfl
        exact line ⟨tail, rfl⟩
      have noBlock : ∀ tail, c = '/' → rest = '*' :: tail → False := by
        rintro tail rfl rfl
        exact block ⟨tail, rfl⟩
      rw [triviaWidth_plain noLine noBlock, triviaComments_plain index offset noLine noBlock]
      by_cases blank : isWhiteSpace c = true
      · rw [if_pos blank, if_pos blank, commentsFrom_pass index (quiet_one
            (isOpening_of isWhiteSpace (by decide) blank) rest), List.drop_one, List.tail_cons,
          ih rest.length (Nat.lt_succ_self _) _ rest rfl, List.drop_succ_cons, Nat.add_assoc,
          Nat.add_comm 1]
      · rw [if_neg blank, if_neg blank]
        rfl

end Trivia

/-! ## Lexemes and templates -/

def templateSymbol : Terminal := .symbol (String.ofList [backquote])

/-- Lexemes, each with whether it stands behind an odd number of marks of templates. -/
def inTemplates : Bool → List (Terminal × Nat × Nat) → List (Bool × Terminal × Nat × Nat)
  | _, [] => []
  | inside, leaf :: rest => (inside, leaf) :: inTemplates (inside ^^ leaf.1 == templateSymbol) rest

/-- The comments among such lexemes, outside templates. -/
def consumedComments (source : List Char) (leaves : List (Bool × Terminal × Nat × Nat)) :
    List Comment :=
  leaves.flatMap fun (inside, class_, start, _) =>
    if class_ == .trivia && !inside then
      triviaComments (.ofText source) start (source.drop start)
    else []

/-- Whether a lexeme shows to the search that it holds no comment, whatever stands before it. In a
template, it must not look like the end of the template. Elsewhere, a string must end on its line,
an attribute value on its line and not behind a backslash, and in a regular expression, a text and
the start of a closing tag no quoted text or comment may seem to start. -/
def isEvident (source : List Char) : Bool × Terminal × Nat × Nat → Bool
  | (true, class_, start, width) =>
    class_ == templateSymbol || class_ == .templateText
      || (!((source.drop start).take width).contains templateMark
        && ((source.drop start).take width).getLast? != some '\\')
  | (false, .string, start, width) => !((source.drop start).take width).contains '\n'
  | (false, .tagString, start, width) =>
    !((source.drop start).take width).contains '\n'
      && ((source.drop start).take width).dropLast.getLast? != some '\\'
  | (false, class_, start, width) =>
    !([.regex, .tagText, .templateText, .symbol "</"].contains class_)
      || (List.range width).all fun i => lexeme? ((source.drop start).drop i) == none

/-- Where the search is before a lexeme: at its start, or in a template, behind whose end it goes
on. -/
def Resumes (source : List Char) (offset : Nat) (found : List Comment) : Bool → Prop
  | false => commentsFrom (.ofText source) offset 0 (source.drop offset) = found
  | true => ∃ width, closedWidth? templateMark true (source.drop offset) = some width
    ∧ commentsFrom (.ofText source) (offset + width) 0 (source.drop (offset + width)) = found

section Resumes

variable {source : List Char} {offset width : Nat} {found : List Comment}

theorem resumes_trivia (scanned : Terminal.trivia.scan (source.drop offset) = some width)
    (later : Resumes source (offset + width) found false) :
    Resumes source offset
      (triviaComments (.ofText source) offset (source.drop offset) ++ found) false := by
  cases scanned
  rw [Resumes, commentsFrom_trivia, List.drop_drop, show commentsFrom _ _ _ _ = found from later]

theorem resumes_quiet (quiet : Quiet (source.drop offset) width)
    (later : Resumes source (offset + width) found false) : Resumes source offset found false := by
  rw [Resumes, commentsFrom_pass _ quiet, List.drop_drop]
  exact later

theorem resumes_quoted (filled : 0 < width)
    (quoted : lexeme? (source.drop offset) = some ⟨width, none⟩)
    (later : Resumes source (offset + width) found false) : Resumes source offset found false := by
  rw [Resumes, commentsFrom_of_lexeme _ quoted filled, List.drop_drop]
  exact later

theorem resumes_mark {inside : Bool} (scanned : templateSymbol.scan (source.drop offset) = some width)
    (later : Resumes source (offset + width) found (!inside)) :
    Resumes source offset found inside := by
  obtain ⟨rest, opened, rfl⟩ : ∃ rest, source.drop offset = templateMark :: rest ∧ width = 1 := by
    simp only [templateSymbol, Terminal.scan] at scanned
    split at scanned
    · rename_i begins
      obtain ⟨rest, same⟩ := List.isPrefixOf_iff_prefix.1 begins
      exact ⟨rest, same.symm, (Option.some.inj scanned).symm⟩
    · cases scanned
  have behind : source.drop (offset + 1) = rest := by
    rw [← List.drop_drop, opened]
    rfl
  cases inside with
  | false =>
    obtain ⟨inner, closed, same⟩ := later
    have quoted : lexeme? (source.drop offset) = some ⟨inner + 1, none⟩ := by
      rw [opened, lexeme?_template, ← behind, closed]
      rfl
    have sum : offset + 1 + inner = offset + (inner + 1) := by omega
    rw [sum] at same
    exact resumes_quoted (Nat.succ_pos _) quoted same
  | true => exact ⟨1, by rw [opened, closedWidth?_mark], later⟩

theorem resumes_template
    (goes : closedWidth? templateMark true (source.drop offset)
      = (closedWidth? templateMark true ((source.drop offset).drop width)).map (· + width))
    (later : Resumes source (offset + width) found true) : Resumes source offset found true := by
  obtain ⟨rest, closed, same⟩ := later
  rw [List.drop_drop, closed, Option.map_some] at goes
  refine ⟨rest + width, goes, ?_⟩
  rw [Nat.add_comm rest, ← Nat.add_assoc]
  exact same

theorem quiet_of_all {text : List Char}
    (silent : ((List.range width).all fun i => lexeme? (text.drop i) == none) = true) :
    Quiet text width := by
  intro i below
  exact eq_of_beq (List.all_eq_true.1 silent i (List.mem_range.2 below))

/-- The classes of lexemes that the grammar of source texts is made of. -/
def isKnown (class_ : Terminal) : Bool :=
  isPlain class_
    || [.trivia, .string, .tagString, .regex, .tagText, .templateText, .symbol "</",
      templateSymbol].contains class_

/-- What the search finds before a lexeme is what it finds behind it, with the comments of the
lexeme. -/
theorem resumes_leaf {class_ : Terminal} {inside : Bool}
    (scanned : class_.scan (source.drop offset) = some width) (known : isKnown class_ = true)
    (evident : isEvident source (inside, class_, offset, width) = true)
    (later : Resumes source (offset + width) found (inside ^^ class_ == templateSymbol)) :
    Resumes source offset
      ((if class_ == .trivia && !inside then
          triviaComments (.ofText source) offset (source.drop offset) else []) ++ found)
      inside := by
  by_cases mark : class_ = templateSymbol
  · subst mark
    rw [beq_self_eq_true, Bool.xor_true] at later
    exact resumes_mark scanned later
  rw [beq_eq_false_iff_ne.2 mark, Bool.xor_false] at later
  cases inside with
  | true =>
    rw [Bool.not_true, Bool.and_false]
    apply resumes_template _ later
    by_cases template : class_ = .templateText
    · subst template
      rw [← (nonzero_eq_some_iff.1 scanned).1]
      exact closedWidth?_templateText _
    · simp only [isEvident, beq_eq_false_iff_ne.2 mark, beq_eq_false_iff_ne.2 template,
        Bool.false_or, Bool.and_eq_true, Bool.not_eq_true', bne_iff_ne, ne_eq] at evident
      have size : ((source.drop offset).take width).length = width :=
        List.length_take_of_le (Terminal.scan_le scanned)
      have escape : templateMark ≠ '\\' := by decide
      have goes := closedWidth?_append escape ((source.drop offset).drop width)
        (by simpa using evident.1) evident.2 (.inl rfl)
      rwa [List.take_append_drop, size] at goes
  | false =>
    by_cases plain : isPlain class_ = true
    · have other : class_ ≠ .trivia := by
        rintro rfl
        cases plain
      rw [beq_eq_false_iff_ne.2 other]
      exact resumes_quiet (lexeme?_eq_none_of_plain plain scanned) later
    · simp only [isKnown, plain, Bool.false_or, List.contains_iff_mem, List.mem_cons,
        List.not_mem_nil, or_false] at known
      rcases known with rfl | rfl | rfl | rfl | rfl | rfl | rfl | rfl
      · exact resumes_trivia scanned later
      · have line : '\n' ∉ (source.drop offset).take width := by simpa [isEvident] using evident
        exact resumes_quoted (stringWidth?_bounds scanned).1 (lexeme?_of_stringWidth? scanned line)
          later
      · obtain ⟨line, last⟩ := Bool.and_eq_true_iff.1 evident
        exact resumes_quoted (tagStringWidth?_bounds scanned).1
          (lexeme?_of_tagStringWidth? scanned (by simpa using line) (by simpa using last)) later
      · exact resumes_quiet (quiet_of_all evident) later
      · exact resumes_quiet (quiet_of_all evident) later
      · exact resumes_quiet (quiet_of_all evident) later
      · exact resumes_quiet (quiet_of_all evident) later
      · exact absurd rfl mark

/-- **The search for comments follows the lexemes.** -/
theorem resumes_of_tiles {leaves : List (Terminal × Nat × Nat)} {stop : Nat} {inside : Bool}
    (tiles : Tiles source offset leaves stop) (whole : stop = source.length)
    (known : ∀ leaf ∈ leaves, isKnown leaf.1 = true)
    (evident : ∀ entry ∈ inTemplates inside leaves, isEvident source entry = true)
    (paired : oddAfter (· == templateSymbol) inside leaves = false) :
    Resumes source offset (consumedComments source (inTemplates inside leaves)) inside := by
  induction tiles generalizing inside with
  | nil offset =>
    cases paired
    rw [Resumes, whole, List.drop_length]
    rfl
  | cons scanned _ ih =>
    rw [List.forall_mem_cons] at known
    rw [inTemplates, List.forall_mem_cons] at evident
    exact resumes_leaf scanned known.1 evident.1 (ih whole known.2 evident.2 paired)

end Resumes

/-! ## Programs -/

/-- The lexemes of a source text in order. -/
def programLeaves (source : String) : List (Terminal × Nat × Nat) :=
  (readProgram source.toList).leaves.toList

theorem tiles_programLeaves {source : String} {root : Node} (accepted : parse source = .ok root) :
    Tiles source.toList 0 (programLeaves source) source.toList.length := by
  have reads := reads_program source.toList
  have whole : source.toList.length ≤ (readProgram source.toList).width := by
    simp only [parse_eq] at accepted
    split at accepted
    · cases accepted
    · omega
  have tiles := reads.tiles _ source.toList rfl rfl
  rwa [Nat.zero_add, Nat.le_antisymm (reads.width_le _ rfl) whole] at tiles

theorem isKnown_programLeaves (source : String) :
    ∀ leaf ∈ programLeaves source, isKnown leaf.1 = true := by
  have bodies : ∀ name, (sourceGrammar.body name).readsOnly isKnown = true := by
    intro name
    cases name <;> decide
  exact (reads_program source.toList).readsOnly bodies (by decide) _ rfl

theorem oddAfter_programLeaves (source : String) :
    oddAfter (· == templateSymbol) false (programLeaves source) = false := by
  have bodies : ∀ name,
      (sourceGrammar.body name).parity? (· == templateSymbol) = some false := by
    intro name
    cases name <;> decide
  exact (reads_program source.toList).parity bodies _ false false rfl (by decide)

/-- The comments that are found in an accepted program with evident lexemes are exactly those that
are read between its lexemes, outside templates. -/
theorem comments_eq_consumed {source : String} {root : Node} (accepted : parse source = .ok root)
    (evident : ∀ entry ∈ inTemplates false (programLeaves source),
      isEvident source.toList entry = true) :
    comments source.toList
      = consumedComments source.toList (inTemplates false (programLeaves source)) :=
  resumes_of_tiles (tiles_programLeaves accepted) rfl (isKnown_programLeaves source) evident
    (oddAfter_programLeaves source)

/-- A program with comment marks in a string and in a template, and with a comment in a
substitution. -/
def commentedSource : String :=
  "// a\nu = '//b' / c; /* d */ v = /e/(`//$\x7bf /* g */\x7d`); <h>i</h>; // j"

/-- Three of its four comments are found. -/
theorem comments_eq_consumed_commented :
    (parse commentedSource).isOk = true
      ∧ (∀ entry ∈ inTemplates false (programLeaves commentedSource),
        isEvident commentedSource.toList entry = true)
      ∧ comments commentedSource.toList
        = [⟨.line, [' ', 'a'], 1, 1⟩, ⟨.block, [' ', 'd', ' '], 2, 2⟩, ⟨.line, [' ', 'j'], 2, 2⟩] := by
  have valid : (parse commentedSource).isOk = true := by decide +kernel
  obtain ⟨evident, consumed⟩ : (∀ entry ∈ inTemplates false (programLeaves commentedSource),
        isEvident commentedSource.toList entry = true)
      ∧ consumedComments commentedSource.toList
          (inTemplates false (programLeaves commentedSource))
        = [⟨.line, [' ', 'a'], 1, 1⟩, ⟨.block, [' ', 'd', ' '], 2, 2⟩,
          ⟨.line, [' ', 'j'], 2, 2⟩] := by
    decide +kernel
  refine ⟨valid, evident, ?_⟩
  cases accepted : parse commentedSource with
  | error fault =>
    rw [accepted] at valid
    cases valid
  | ok root => rw [comments_eq_consumed accepted evident, consumed]

theorem comments_ne_consumed_tagText :
    (parse "<a>http://b</a>").isOk = true
      ∧ consumedComments "<a>http://b</a>".toList
          (inTemplates false (programLeaves "<a>http://b</a>")) = []
      ∧ comments "<a>http://b</a>".toList = [⟨.line, ['b', '<', '/', 'a', '>'], 1, 1⟩] := by
  decide +kernel

end TemplateLint.Directive
