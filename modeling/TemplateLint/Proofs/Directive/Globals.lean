import TemplateLint.Directive.Read
import TemplateLint.Proofs.Directive.Scan
import TemplateLint.Proofs.Entries

/-!
# Directives that name globals

However the entries of such a directive are spaced and separated (`WrittenGlobals`), they are read
back as they were written, and of several entries for a name the last one counts
(`readDirectives_of_written`). Each stage of reading keeps words and marks apart: the comment ends
behind the directive (`blockValue?_of_written`), blanks around colons go
(`Entry.Written.joinColons`), and what is left is split at the gaps (`splitNames_of_written`).
-/

namespace TemplateLint.Directive

open TemplateLint.Text

variable {piece rest text : List Char} {c : Char}

/-! ## Words and gaps -/

/-- The characters that stand between words. -/
def isMark (c : Char) : Bool := isBlank c || c == ',' || c == ':'

def IsBlanks (text : List Char) : Prop := ∀ c ∈ text, isBlank c = true

/-- What may stand between two entries. -/
def IsGap (text : List Char) : Prop := ∀ c ∈ text, isBlank c = true ∨ c = ','

-- Both look at the characters of the text, not at every character there is.
instance : DecidablePred IsBlanks := fun text => List.decidableBAll _ text

instance : DecidablePred IsGap := fun text => List.decidableBAll _ text

theorem plain_of_all {text : List Char} (all : text.all (fun c => !isMark c) = true) :
    ∀ c ∈ text, isMark c = false := by
  simpa using all

/-- A name or a flag. -/
structure Word where
  text : List Char
  filled : text ≠ []
  plain : ∀ c ∈ text, isMark c = false
  unclosed : ¬ ['*', '/'] <:+: text

/-- A global that a directive lists, perhaps with a flag behind a colon. -/
structure Entry where
  name : Word
  flag? : Option Word

namespace Entry

/-- The flag says so in any letter case. -/
def isWritable (entry : Entry) : Bool :=
  entry.flag?.any fun flag =>
    ["true", "writable", "writeable"].contains (String.ofList (flag.text.map Char.toLower))

/-- An entry without any blanks. -/
def spelled (entry : Entry) : List Char :=
  entry.name.text ++ entry.flag?.elim [] fun flag => ':' :: flag.text

/-- The texts of an entry. -/
inductive Written : Entry → List Char → Prop
  | bare (name : Word) : Written ⟨name, none⟩ name.text
  | flagged (name flag : Word) {before after : List Char} (blank : IsBlanks before)
      (blank' : IsBlanks after) :
      Written ⟨name, some flag⟩ (name.text ++ (before ++ ':' :: (after ++ flag.text)))

end Entry

/-- Entries with gaps between them. A gap may be left out behind the last entry only. -/
inductive WrittenEntries : List Entry → List Char → Prop
  | nil : WrittenEntries [] []
  | cons {entry : Entry} {entries : List Entry} {text between more : List Char}
      (written : entry.Written text) (gap : IsGap between) (apart : between = [] → entries = [])
      (others : WrittenEntries entries more) :
      WrittenEntries (entry :: entries) (text ++ (between ++ more))

/-- A block comment that names globals. -/
inductive WrittenGlobals : List Entry → List Char → Prop
  | comment {entries : List Entry} {text before after : List Char} (keyword : String)
      (known : keyword = "global" ∨ keyword = "globals") (blank : IsBlanks before)
      (blank' : IsBlanks after) (filled : after ≠ []) (written : WrittenEntries entries text) :
      WrittenGlobals entries
        ('/' :: '*' :: (before ++ (keyword.toList ++ (after ++ text)) ++ ['*', '/']))

theorem isMark_eq_false_iff : isMark c = false ↔ isBlank c = false ∧ c ≠ ',' ∧ c ≠ ':' := by
  simp [isMark, and_assoc]

theorem isMark_of_isBlank (blank : isBlank c = true) : isMark c = true := by
  simp [isMark, blank]

theorem IsGap.isMark (gap : IsGap piece) : ∀ c ∈ piece, isMark c = true := by
  intro c member
  rcases gap c member with blank | rfl
  · exact isMark_of_isBlank blank
  · rfl

theorem Word.exists_cons (word : Word) : ∃ c rest, word.text = c :: rest ∧ isMark c = false := by
  obtain ⟨c, rest, whole⟩ := List.exists_cons_of_ne_nil word.filled
  exact ⟨c, rest, whole, word.plain c (whole ▸ .head _)⟩

theorem Entry.Written.exists_cons {entry : Entry} (written : entry.Written text) :
    ∃ c rest, text = c :: rest ∧ isMark c = false := by
  cases written with
  | bare name => exact name.exists_cons
  | flagged name =>
    obtain ⟨c, rest, whole, plain⟩ := name.exists_cons
    exact ⟨c, _, by rw [whole]; rfl, plain⟩

theorem WrittenEntries.head {entries : List Entry} (written : WrittenEntries entries text) :
    ∀ c ∈ text.head?, isMark c = false := by
  cases written with
  | nil => simp
  | cons written =>
    obtain ⟨c, rest, rfl, plain⟩ := written.exists_cons
    simpa using plain

/-! ## Where the comment ends -/

theorem blockValue?_cons {value : List Char} (next : c = '*' → rest.head? ≠ some '/')
    (closed : blockValue? rest = some value) : blockValue? (c :: rest) = some (c :: value) := by
  rw [blockValue?, closed]
  · rfl
  · rintro tail star rfl
    exact next star rfl

theorem blockValue?_marks {value : List Char} (marks : ∀ c ∈ piece, isMark c = true)
    (closed : blockValue? rest = some value) :
    blockValue? (piece ++ rest) = some (piece ++ value) := by
  induction piece with
  | nil => exact closed
  | cons c piece ih =>
    obtain ⟨mark, marks⟩ := List.forall_mem_cons.1 marks
    refine blockValue?_cons ?_ (ih marks)
    rintro rfl
    cases mark

theorem blockValue?_append {value : List Char} (unclosed : ¬ ['*', '/'] <:+: piece)
    (next : rest.head? ≠ some '/') (closed : blockValue? rest = some value) :
    blockValue? (piece ++ rest) = some (piece ++ value) := by
  induction piece with
  | nil => exact closed
  | cons c piece ih =>
    refine blockValue?_cons ?_
      (ih fun inside => unclosed (inside.trans (List.suffix_cons ..).isInfix))
    rintro rfl
    cases piece with
    | nil => exact next
    | cons d piece =>
      intro same
      cases same
      exact unclosed ⟨[], piece, rfl⟩

/-- A word and the marks behind it, which keep it apart from what follows. -/
theorem blockValue?_word (word : Word) {value : List Char} (marks : ∀ c ∈ piece, isMark c = true)
    (next : piece = [] → rest.head? ≠ some '/') (closed : blockValue? rest = some value) :
    blockValue? (word.text ++ (piece ++ rest)) = some (word.text ++ (piece ++ value)) := by
  refine blockValue?_append word.unclosed ?_ (blockValue?_marks marks closed)
  cases piece with
  | nil => exact next rfl
  | cons c piece =>
    intro same
    cases same
    cases marks '/' (.head _)

theorem blockValue?_of_written {entries : List Entry} (written : WrittenEntries entries text) :
    blockValue? (text ++ ['*', '/']) = some text := by
  induction written with
  | nil => rfl
  | @cons entry entries text between more written gap apart others ih =>
    have next : between = [] → (more ++ ['*', '/']).head? ≠ some '/' := by
      intro left
      obtain rfl := apart left
      cases others
      decide
    cases written with
    | bare name => simpa using blockValue?_word name gap.isMark next ih
    | @flagged name flag before after blank blank' =>
      have marks : ∀ c ∈ before ++ ':' :: after, isMark c = true := by
        simp only [List.forall_mem_append, List.forall_mem_cons]
        exact ⟨fun c member => isMark_of_isBlank (blank c member), rfl,
          fun c member => isMark_of_isBlank (blank' c member)⟩
      have last := blockValue?_word flag gap.isMark next ih
      simpa using blockValue?_word name marks (by simp) last

/-! ## Blanks around colons -/

theorem joinColonsFrom_plain (plain : ∀ c ∈ piece, isMark c = false) :
    joinColonsFrom [] false (piece ++ rest) = piece ++ joinColonsFrom [] false rest := by
  induction piece with
  | nil => rfl
  | cons c piece ih =>
    obtain ⟨here, plain⟩ := List.forall_mem_cons.1 plain
    rw [isMark_eq_false_iff] at here
    simp [joinColonsFrom, here, ih plain]

theorem joinColonsFrom_word (word : Word) (blanks : List Char) (afterColon : Bool) :
    joinColonsFrom blanks afterColon (word.text ++ rest)
      = (if afterColon then [] else blanks) ++ (word.text ++ joinColonsFrom [] false rest) := by
  obtain ⟨c, tail, whole, here⟩ := word.exists_cons
  have later : ∀ c ∈ tail, isMark c = false := fun c member => word.plain c (whole ▸ .tail _ member)
  rw [isMark_eq_false_iff] at here
  simp [whole, joinColonsFrom, here, joinColonsFrom_plain later]

theorem joinColonsFrom_blanks (blanks : List Char) (afterColon : Bool) (blank : IsBlanks piece) :
    joinColonsFrom blanks afterColon (piece ++ rest)
      = joinColonsFrom (blanks ++ piece) afterColon rest := by
  induction piece generalizing blanks with
  | nil => simp
  | cons c piece ih =>
    obtain ⟨here, later⟩ := List.forall_mem_cons.1 blank
    have other : (c == ':') = false := by
      rw [beq_eq_false_iff_ne]
      rintro rfl
      cases here
    simp [joinColonsFrom, here, other, ih _ later]

theorem Entry.Written.joinColons {entry : Entry} (written : entry.Written text) :
    joinColonsFrom [] false (text ++ rest) = entry.spelled ++ joinColonsFrom [] false rest := by
  cases written with
  | bare name => simp [joinColonsFrom_word, spelled]
  | flagged name flag blank blank' =>
    simp [joinColonsFrom_word, joinColonsFrom_blanks, blank, blank', joinColonsFrom, spelled]

theorem joinColonsFrom_gap (pending : List Char) (gap : IsGap piece)
    (next : ∀ c ∈ rest.head?, isMark c = false) :
    joinColonsFrom pending false (piece ++ rest)
      = pending ++ (piece ++ joinColonsFrom [] false rest) := by
  induction piece generalizing pending with
  | nil =>
    cases rest with
    | nil => simp [joinColonsFrom]
    | cons c rest =>
      have here := next c rfl
      rw [isMark_eq_false_iff] at here
      simp [joinColonsFrom, here]
  | cons c piece ih =>
    obtain ⟨here, later⟩ := List.forall_mem_cons.1 gap
    rcases here with blank | rfl
    · have other : (c == ':') = false := by
        rw [beq_eq_false_iff_ne]
        rintro rfl
        cases blank
      simp [joinColonsFrom, blank, other, ih _ later]
    · simp [joinColonsFrom, ih _ later, isBlank, isWhiteSpace]

/-! ## Splitting -/

/-- The pieces of a text between blanks and commas. -/
def pieces (piece text : List Char) : List (List Char) :=
  (piecesFrom piece text).filter fun piece => !piece.isEmpty

theorem pieces_gap (gap : IsGap piece) : pieces [] (piece ++ rest) = pieces [] rest := by
  induction piece with
  | nil => rfl
  | cons c piece ih =>
    obtain ⟨here, later⟩ := List.forall_mem_cons.1 gap
    have splits : (isBlank c || c == ',') = true := by simpa using here
    simpa [pieces, piecesFrom, splits] using ih later

theorem piecesFrom_plain (before : List Char)
    (plain : ∀ c ∈ piece, (isBlank c || c == ',') = false) :
    piecesFrom before (piece ++ rest) = piecesFrom (before ++ piece) rest := by
  induction piece generalizing before with
  | nil => simp
  | cons c piece ih =>
    obtain ⟨here, later⟩ := List.forall_mem_cons.1 plain
    rw [List.cons_append, piecesFrom, here, if_neg Bool.false_ne_true, ih _ later]
    simp

theorem Entry.plain_spelled (entry : Entry) :
    ∀ c ∈ entry.spelled, (isBlank c || c == ',') = false := by
  have word : ∀ word : Word, ∀ c ∈ word.text, (isBlank c || c == ',') = false :=
    fun word c member => (Bool.or_eq_false_iff.1 (word.plain c member)).1
  obtain ⟨name, flag?⟩ := entry
  cases flag? with
  | none => simpa [spelled] using word name
  | some flag =>
    simp only [spelled, Option.elim_some, List.forall_mem_append, List.forall_mem_cons]
    exact ⟨word name, rfl, word flag⟩

theorem pieces_entry (entry : Entry) (gap : IsGap piece) (apart : piece = [] → rest = []) :
    pieces [] (entry.spelled ++ (piece ++ rest)) = entry.spelled :: pieces [] rest := by
  have filled : entry.spelled.isEmpty = false := by
    simp [Entry.spelled, entry.name.filled]
  cases piece with
  | nil =>
    obtain rfl := apart rfl
    rw [pieces, piecesFrom_plain [] entry.plain_spelled]
    simp [pieces, piecesFrom, filled]
  | cons c piece =>
    obtain ⟨here, later⟩ := List.forall_mem_cons.1 gap
    have splits : (isBlank c || c == ',') = true := by simpa using here
    rw [pieces, piecesFrom_plain [] entry.plain_spelled, ← pieces_gap later]
    simp [pieces, piecesFrom, filled, splits]

/-- The entries of a directive are told apart, without the blanks around colons. -/
theorem splitNames_of_written {entries : List Entry} (written : WrittenEntries entries text) :
    splitNames (joinColons text) = entries.map fun entry => String.ofList entry.spelled := by
  have split : pieces [] (joinColons text) = entries.map Entry.spelled := by
    induction written with
    | nil => rfl
    | @cons entry entries text between more written gap apart others ih =>
      rw [joinColons, written.joinColons, joinColonsFrom_gap [] gap others.head, List.nil_append,
        pieces_entry entry gap, List.map_cons]
      · exact congrArg _ ih
      · intro left
        obtain rfl := apart left
        cases others
        rfl
  rw [splitNames]
  exact (congrArg (List.map String.ofList) split).trans (List.map_map ..)

/-! ## Names and flags -/

theorem trim_of_plain (plain : ∀ c ∈ text, isBlank c = false) : trim text = text := by
  have same : ∀ text : List Char, (∀ c ∈ text, isBlank c = false) →
      text.dropWhile isBlank = text := by
    intro text plain
    cases text with
    | nil => rfl
    | cons c rest => simp [plain c (.head _)]
  rw [trim, trimEnd, same text plain, same, List.reverse_reverse]
  simpa using plain

theorem Word.strip_text (word : Word) :
    strip (String.ofList word.text) = String.ofList word.text := by
  rw [strip, String.toList_ofList,
    trim_of_plain fun c member => (isMark_eq_false_iff.1 (word.plain c member)).1]

theorem readGlobal_spelled (entry : Entry) :
    readGlobal (String.ofList entry.spelled)
      = (String.ofList entry.name.text, entry.isWritable) := by
  have plain : ∀ c ∈ entry.name.text, (c != ':') = true := fun c member =>
    bne_iff_ne.2 (isMark_eq_false_iff.1 (entry.name.plain c member)).2.2
  obtain ⟨name, flag?⟩ := entry
  rw [readGlobal, String.toList_ofList, partition, Entry.spelled,
    List.takeWhile_append_of_pos plain, List.dropWhile_append_of_pos plain]
  cases flag? with
  | none =>
    simp only [Option.elim_none, List.takeWhile_nil, List.append_nil, name.strip_text]
    rfl
  | some flag => simp [name.strip_text, isWritableFlag, flag.strip_text, lowerAscii, Entry.isWritable]

/-! ## The directive -/

theorem argument?_of_written {entries : List Entry} {before after : List Char} {keyword : String}
    (known : keyword = "global" ∨ keyword = "globals") (blank : IsBlanks before)
    (blank' : IsBlanks after) (filled : after ≠ []) (written : WrittenEntries entries text) :
    (argument? "globals" (before ++ (keyword.toList ++ (after ++ text)))
      <|> argument? "global" (before ++ (keyword.toList ++ (after ++ text)))) = some text := by
  obtain ⟨c, rest, rfl⟩ := List.exists_cons_of_ne_nil filled
  obtain ⟨here, later⟩ := List.forall_mem_cons.1 blank'
  have head : (rest ++ text).dropWhile isBlank = text := by
    rw [List.dropWhile_append_of_pos later]
    cases text with
    | nil => rfl
    | cons c rest => simp [(isMark_eq_false_iff.1 (written.head c rfl)).1]
  have initial : isBlank 'g' = false := by decide
  have widths : "global".length = 6 ∧ "globals".length = 7 := ⟨rfl, rfl⟩
  have other : 's' ≠ c := by
    rintro rfl
    cases here
  rcases known with rfl | rfl <;>
    simp [argument?, List.dropWhile_append_of_pos blank, afterWord?, initial, widths, other, here,
      head]

theorem comments_of_blockValue? {value : List Char}
    (closed : blockValue? (value ++ ['*', '/']) = some value) :
    ∃ line endLine,
      comments ('/' :: '*' :: (value ++ ['*', '/'])) = [⟨.block, value, line, endLine⟩] := by
  have found : lexeme? ('/' :: '*' :: (value ++ ['*', '/']))
      = some ⟨value.length + 4, some (.block, value)⟩ := by
    rw [lexeme?_block, closed]
    rfl
  rw [comments, commentsFrom_of_lexeme _ found (Nat.succ_pos _), List.drop_of_length_le (by simp)]
  exact ⟨_, _, rfl⟩

theorem readGlobals?_of_written {entries : List Entry} {source : List Char}
    (written : WrittenGlobals entries source) :
    ∃ value line endLine, comments source = [⟨.block, value, line, endLine⟩]
      ∧ readGlobals? value = some (.globals (entries.map fun entry =>
        (String.ofList entry.name.text, entry.isWritable))) := by
  cases written with
  | @comment text before after keyword known blank blank' filled written =>
  obtain ⟨word, spelled⟩ : ∃ word : Word, word.text = keyword.toList := by
    rcases known with rfl | rfl
    · exact ⟨⟨"global".toList, by decide, plain_of_all (by decide), by decide +kernel⟩, rfl⟩
    · exact ⟨⟨"globals".toList, by decide, plain_of_all (by decide), by decide +kernel⟩, rfl⟩
  have inner := blockValue?_word word (fun c member => isMark_of_isBlank (blank' c member))
    (fun none => absurd none filled) (blockValue?_of_written written)
  have closed := blockValue?_marks (fun c member => isMark_of_isBlank (blank c member)) inner
  rw [spelled] at closed
  rw [← List.append_assoc after, ← List.append_assoc keyword.toList, ← List.append_assoc] at closed
  obtain ⟨line, endLine, alone⟩ := comments_of_blockValue? closed
  refine ⟨_, line, endLine, alone, ?_⟩
  rw [readGlobals?, argument?_of_written known blank blank' filled written, Option.map_some,
    splitNames_of_written written, List.map_map]
  have named : ∀ entry : Entry, (readGlobal (String.ofList entry.spelled)).1 ≠ "" := by
    intro entry empty
    rw [readGlobal_spelled] at empty
    exact entry.name.filled (by simpa using empty)
  have kept : entries.map (readGlobal ∘ fun entry => String.ofList entry.spelled)
      = entries.map fun entry => (String.ofList entry.name.text, entry.isWritable) :=
    List.map_congr_left fun entry _ => readGlobal_spelled entry
  rw [List.filter_eq_self.2, kept]
  simpa using fun entry _ => named entry

/-- **Globals are read back as they were written.** From a text that is one comment with a list of
entries, each name has the flag of its last entry, and no other name is known. Nothing else is
read. -/
theorem readDirectives_of_written {entries : List Entry} {source : List Char}
    (written : WrittenGlobals entries source) :
    (∀ name, (readDirectives source).globals.find? name
        = (entries.reverse.find? fun entry => entry.name.text == name.toList).map Entry.isWritable)
      ∧ (readDirectives source).environments = [] ∧ (readDirectives source).lines = []
      ∧ (readDirectives source).file = [] := by
  obtain ⟨value, line, endLine, alone, read⟩ := readGlobals?_of_written written
  have whole : readDirectives source = ⟨Entries.layer [] (entries.map fun entry =>
      (String.ofList entry.name.text, entry.isWritable)), [], [], []⟩ := by
    simp [readDirectives, alone, readComment?, read, Directives.add, Directives.empty]
  rw [whole]
  refine ⟨fun name => ?_, rfl, rfl, rfl⟩
  rw [Entries.find?_layer_reverse, Entries.find?_nil, Option.or_none, ← List.map_reverse]
  induction entries.reverse with
  | nil => rfl
  | cons entry rest ih =>
    rw [List.map_cons, Entries.find?_cons, ih, List.find?_cons]
    by_cases same : entry.name.text = name.toList
    · simp [same]
    · have other : name ≠ String.ofList entry.name.text := by
        rintro rfl
        simp at same
      rw [if_neg other, beq_eq_false_iff_ne.2 same]

/-- A repeated name that ends in a star, and a flag in mixed letter case between blanks. -/
theorem readDirectives_of_written_repeated :
    (readDirectives "/*globals a*:true,, b :\tWriteAble ,a*:no*/".toList).globals.find? "a*"
        = some false
      ∧ (readDirectives "/*globals a*:true,, b :\tWriteAble ,a*:no*/".toList).globals.find? "b"
        = some true := by
  let star : Word := ⟨['a', '*'], by decide, plain_of_all (by decide), by decide +kernel⟩
  let plain : Word := ⟨['b'], by decide, plain_of_all (by decide), by decide +kernel⟩
  let no : Word := ⟨['n', 'o'], by decide, plain_of_all (by decide), by decide +kernel⟩
  let yes : Word := ⟨"true".toList, by decide, plain_of_all (by decide), by decide +kernel⟩
  let mixed : Word := ⟨"WriteAble".toList, by decide, plain_of_all (by decide), by decide +kernel⟩
  have unspaced : IsBlanks [] := by decide
  have entries := WrittenEntries.cons (.flagged star yes unspaced unspaced)
    (show IsGap [',', ',', ' '] by decide) (by decide)
    (.cons (.flagged plain mixed (show IsBlanks [' '] by decide) (show IsBlanks ['\t'] by decide))
      (show IsGap [' ', ','] by decide) (by decide)
      (.cons (.flagged star no unspaced unspaced) (show IsGap [] by decide) (fun _ => rfl) .nil))
  have written := WrittenGlobals.comment "globals" (.inr rfl) unspaced
    (show IsBlanks [' '] by decide) (by decide) entries
  obtain ⟨known, -⟩ := readDirectives_of_written written
  exact ⟨known "a*", known "b"⟩

end TemplateLint.Directive
