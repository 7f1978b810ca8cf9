import TemplateLint.Proofs.Directive.Scan
import TemplateLint.Proofs.Text.LineIndex

/-!
# The lines of comments

Every comment that is found covers its own text (`exists_of_mem_comments`), so it ends as many lines
below its first one as it has line feeds. The main statement puts this together with what the
position of an offset says in general (`position_and_lines`).
-/

namespace TemplateLint.Directive

open TemplateLint.Text

/-- What comments of a kind start and end with. -/
def CommentKind.marks : CommentKind → List Char × List Char
  | .line => (['/', '/'], [])
  | .block => (['/', '*'], ['*', '/'])

/-- A comment as it is written. -/
def Comment.text (comment : Comment) : List Char :=
  comment.kind.marks.1 ++ comment.value ++ comment.kind.marks.2

/-! ## What a comment covers -/

theorem take_of_lexeme? {text value : List Char} {kind : CommentKind} {width : Nat}
    (found : lexeme? text = some ⟨width, some (kind, value)⟩) :
    width = (kind.marks.1 ++ value ++ kind.marks.2).length
      ∧ text.take width = kind.marks.1 ++ value ++ kind.marks.2 := by
  unfold lexeme? at found
  split at found
  · simp [quotedLexeme] at found
  · simp [quotedLexeme] at found
  · next rest =>
    obtain ⟨rfl, rfl, rfl⟩ : (rest.takeWhile (· != '\n')).length + 2 = width
        ∧ .line = kind ∧ rest.takeWhile (· != '\n') = value := by simpa using found
    have front := List.prefix_iff_eq_take.1 (rest.takeWhile_prefix (· != '\n'))
    refine ⟨by simp [CommentKind.marks], ?_⟩
    simp [CommentKind.marks, ← front]
  · obtain ⟨inner, closed, same⟩ := Option.map_eq_some_iff.1 found
    cases same
    refine ⟨by simp [CommentKind.marks], ?_⟩
    simp [CommentKind.marks, take_of_blockValue? closed]
  · split at found
    · simp [quotedLexeme] at found
    · cases found
  · cases found

theorem mem_commentsFrom {index : LineIndex} {offset inside : Nat} {text : List Char}
    {comment : Comment} (member : comment ∈ commentsFrom index offset inside text) :
    ∃ before lexeme, lexeme? (text.drop before) = some lexeme
      ∧ comment ∈ foundAt index (offset + before) lexeme := by
  induction text generalizing offset inside with
  | nil => cases member
  | cons c rest ih =>
    have later : ∀ inside, comment ∈ commentsFrom index (offset + 1) inside rest →
        ∃ before lexeme, lexeme? ((c :: rest).drop before) = some lexeme
          ∧ comment ∈ foundAt index (offset + before) lexeme := by
      intro inside member
      obtain ⟨before, lexeme, found, listed⟩ := ih member
      refine ⟨before + 1, lexeme, found, ?_⟩
      rwa [Nat.add_comm before 1, ← Nat.add_assoc]
    cases inside with
    | succ inside => exact later inside member
    | zero =>
      rw [commentsFrom] at member
      split at member
      · exact later 0 member
      next lexeme found =>
        rcases List.mem_append.1 member with here | behind
        · exact ⟨0, lexeme, found, here⟩
        · exact later _ behind

/-- A comment stands in the text where it was found, and its lines are those of its two ends. -/
theorem exists_of_mem_comments {text : List Char} {comment : Comment}
    (member : comment ∈ comments text) :
    ∃ offset, (text.drop offset).take comment.text.length = comment.text
      ∧ comment.line = ((LineIndex.ofText text).position offset).line
      ∧ comment.endLine
        = ((LineIndex.ofText text).position (offset + comment.text.length)).line := by
  obtain ⟨offset, ⟨width, comment?⟩, found, listed⟩ := mem_commentsFrom member
  obtain ⟨⟨kind, value⟩, present, rfl⟩ := List.mem_map.1 listed
  obtain rfl : comment? = some (kind, value) := Option.mem_toList.1 present
  obtain ⟨rfl, covers⟩ := take_of_lexeme? found
  exact ⟨offset, covers, by rw [Nat.zero_add], by rw [Nat.zero_add]; rfl⟩

/-! ## Lines -/

theorem line_add {text : List Char} {offset width : Nat} (inside : offset + width ≤ text.length) :
    ((LineIndex.ofText text).position (offset + width)).line
      = ((LineIndex.ofText text).position offset).line
        + ((text.drop offset).take width).count '\n' := by
  rw [LineIndex.position_ofText inside, LineIndex.position_ofText (by omega), List.take_add,
    List.count_append]
  dsimp only
  omega

/-- A comment ends as many lines below its first one as there are line feeds in its text. -/
theorem endLine_of_mem_comments {text : List Char} {comment : Comment}
    (member : comment ∈ comments text) :
    comment.endLine = comment.line + comment.text.count '\n' := by
  obtain ⟨offset, covers, line, endLine⟩ := exists_of_mem_comments member
  have inside : offset + comment.text.length ≤ text.length := by
    have width := congrArg List.length covers
    have filled : 0 < comment.text.length := by
      obtain ⟨kind, value, _, _⟩ := comment
      cases kind <;> simp [Comment.text, CommentKind.marks]
    rw [List.length_take, List.length_drop] at width
    omega
  rw [endLine, line, line_add inside, covers]

/-- **Positions and offsets determine each other.** For every text and every offset from its start
to its end, the line is one more than the line feeds before the offset and the column one more than
the characters since the last of them. The line is where the starts of lines, which increase, part
into those up to the offset and those behind it. A later offset has a later position, so no two
offsets share one, and the start of the line and the column give the offset back. In consequence
every comment ends as many lines below its first one as there are line feeds in its text. -/
theorem position_and_lines (text : List Char) :
    (∀ offset ≤ text.length, (LineIndex.ofText text).position offset
        = ⟨(text.take offset).count '\n' + 1,
            ((text.take offset).reverse.takeWhile (· != '\n')).length + 1⟩)
      ∧ (LineIndex.ofText text).starts.Pairwise (· < ·)
      ∧ (∀ start, start ∈ (LineIndex.ofText text).starts
          ↔ start = 0 ∨ ∃ place, start = place + 1 ∧ text[place]? = some '\n')
      ∧ (∀ offset place start, (LineIndex.ofText text).starts[place]? = some start →
          (start ≤ offset ↔ place < ((LineIndex.ofText text).position offset).line))
      ∧ (∀ first last, first < last → last ≤ text.length →
          ((LineIndex.ofText text).position first).Before
            ((LineIndex.ofText text).position last))
      ∧ (∀ first ≤ text.length, ∀ last ≤ text.length,
          (LineIndex.ofText text).position first = (LineIndex.ofText text).position last →
            first = last)
      ∧ (∀ offset ≤ text.length, ∃ start,
          (LineIndex.ofText text).starts[((LineIndex.ofText text).position offset).line - 1]?
              = some start
            ∧ start + ((LineIndex.ofText text).position offset).column - 1 = offset)
      ∧ ∀ comment ∈ comments text,
          comment.endLine = comment.line + comment.text.count '\n' := by
  refine ⟨fun offset => LineIndex.position_ofText, LineIndex.starts_increase text,
    fun start => LineIndex.mem_starts_iff, fun offset place start => LineIndex.start_le_iff,
    fun first last => LineIndex.before_of_lt, ?_, ?_, fun comment => endLine_of_mem_comments⟩
  · intro first insideFirst last insideLast
    exact LineIndex.eq_of_position_eq insideFirst insideLast
  · intro offset inside
    exact LineIndex.start_add_column text offset

end TemplateLint.Directive
