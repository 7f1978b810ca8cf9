import Mathlib.Data.List.Induction
import Mathlib.Data.List.TakeWhile
import TemplateLint.Text.LineIndex

/-!
# Positions in a text

The line of an offset is one more than the number of line feeds before it, and its column is one
more than the number of characters since the last of them (`LineIndex.position_ofText`). So a later
offset has a later position (`LineIndex.before_of_lt`), and an offset is found again from the start
of its line and its column (`LineIndex.start_add_column`).
-/

namespace TemplateLint.Text

/-- In an earlier line, or in the same line and an earlier column. -/
def Position.Before (first last : Position) : Prop :=
  first.line < last.line ∨ first.line = last.line ∧ first.column < last.column

theorem Position.Before.ne {first last : Position} (before : first.Before last) : first ≠ last := by
  rintro rfl
  rcases before with line | ⟨-, column⟩
  · exact Nat.lt_irrefl _ line
  · exact Nat.lt_irrefl _ column

namespace LineIndex

variable {text : List Char} {offset first last : Nat}

theorem lt_of_mem_startsFrom {offset start : Nat} {text : List Char}
    (member : start ∈ startsFrom offset text) : offset < start := by
  induction text generalizing offset with
  | nil => cases member
  | cons c rest ih =>
    rw [startsFrom] at member
    split at member
    · rcases List.mem_cons.1 member with rfl | later
      · exact Nat.lt_succ_self offset
      · exact Nat.lt_of_succ_lt (ih later)
    · exact Nat.lt_of_succ_lt (ih member)

theorem takeWhile_startsFrom (offset width : Nat) (text : List Char) :
    (startsFrom offset text).takeWhile (· ≤ offset + width)
      = startsFrom offset (text.take width) := by
  induction text generalizing offset width with
  | nil => rw [List.take_nil]; rfl
  | cons c rest ih =>
    cases width with
    | zero =>
      apply List.takeWhile_eq_nil_iff.2
      intro filled
      have above := lt_of_mem_startsFrom (List.getElem_mem filled)
      simpa using above
    | succ width =>
      have further := ih (offset + 1) width
      rw [Nat.add_assoc, Nat.add_comm 1 width] at further
      rw [List.take_succ_cons, startsFrom, startsFrom]
      split
      · rw [List.takeWhile_cons_of_pos (by simp), further]
      · exact further

theorem length_startsFrom (offset : Nat) (text : List Char) :
    (startsFrom offset text).length = text.count '\n' := by
  induction text generalizing offset with
  | nil => rfl
  | cons c rest ih =>
    rw [startsFrom, List.count_cons]
    simp only [beq_iff_eq]
    split
    · rw [List.length_cons, ih]
    · exact ih _

theorem startsFrom_concat (offset : Nat) (text : List Char) (c : Char) :
    startsFrom offset (text ++ [c])
      = startsFrom offset text ++ if c = '\n' then [offset + text.length + 1] else [] := by
  induction text generalizing offset with
  | nil => rfl
  | cons first rest ih =>
    have further := ih (offset + 1)
    rw [List.length_cons, ← Nat.add_assoc, Nat.add_right_comm offset]
    rw [List.cons_append, startsFrom, startsFrom]
    split
    · rw [further, List.cons_append]
    · exact further

theorem getLastD_startsFrom_add (text : List Char) :
    (startsFrom 0 text).getLastD 0 + (text.reverse.takeWhile (· != '\n')).length
      = text.length := by
  induction text using List.reverseRecOn with
  | nil => rfl
  | append_singleton front c ih =>
    rw [startsFrom_concat, List.reverse_append, List.length_append]
    by_cases feed : c = '\n'
    · subst feed
      simp
    · have passes : (c != '\n') = true := bne_iff_ne.2 feed
      rw [if_neg feed, List.append_nil]
      simp [List.takeWhile_cons_of_pos, passes, ← ih, Nat.add_assoc]

/-- **The position of an offset**: lines are counted by the line feeds before the offset, columns
by the characters since the last one. -/
theorem position_ofText {text : List Char} {offset : Nat} (inside : offset ≤ text.length) :
    (ofText text).position offset
      = ⟨(text.take offset).count '\n' + 1,
          ((text.take offset).reverse.takeWhile (· != '\n')).length + 1⟩ := by
  have before : (ofText text).starts.takeWhile (· ≤ offset)
      = 0 :: startsFrom 0 (text.take offset) := by
    have later := takeWhile_startsFrom 0 offset text
    rw [Nat.zero_add] at later
    rw [ofText, List.takeWhile_cons_of_pos (by simp), later]
  have column := getLastD_startsFrom_add (text.take offset)
  rw [List.length_take_of_le inside] at column
  simp only [position, before, List.length_cons, length_startsFrom, List.getLastD_cons,
    Position.mk.injEq, true_and]
  omega

/-! ## The order of positions -/

/-- **A later offset has a later position.** -/
theorem before_of_lt (earlier : first < last) (inside : last ≤ text.length) :
    ((ofText text).position first).Before ((ofText text).position last) := by
  obtain ⟨width, rfl⟩ := Nat.exists_eq_add_of_lt earlier
  rw [Nat.add_assoc] at inside ⊢
  rw [position_ofText (by omega), position_ofText inside, List.take_add]
  have filled : ((text.drop first).take (width + 1)).length = width + 1 := by
    rw [List.length_take, List.length_drop]
    omega
  revert filled
  generalize (text.drop first).take (width + 1) = between
  intro filled
  rw [Position.Before, List.count_append, List.reverse_append]
  by_cases feed : '\n' ∈ between
  · have counted := List.count_pos_iff.2 feed
    exact .inl (by dsimp only; omega)
  · have skipped : ∀ c ∈ between.reverse, (c != '\n') = true := by
      intro c member
      rw [bne_iff_ne]
      rintro rfl
      exact feed (List.mem_reverse.1 member)
    refine .inr ⟨by rw [List.count_eq_zero_of_not_mem feed, Nat.add_zero], ?_⟩
    rw [List.takeWhile_append_of_pos skipped, List.length_append, List.length_reverse]
    dsimp only
    omega

/-- An offset is told by its position. -/
theorem eq_of_position_eq (insideFirst : first ≤ text.length) (insideLast : last ≤ text.length)
    (same : (ofText text).position first = (ofText text).position last) : first = last := by
  rcases Nat.lt_trichotomy first last with earlier | equal | later
  · exact absurd same (before_of_lt earlier insideLast).ne
  · exact equal
  · exact absurd same.symm (before_of_lt later insideFirst).ne

/-! ## The starts of lines -/

theorem mem_startsFrom_iff {start : Nat} : start ∈ startsFrom offset text
      ↔ ∃ place, start = offset + place + 1 ∧ text[place]? = some '\n' := by
  induction text generalizing offset with
  | nil => simp [startsFrom]
  | cons c rest ih =>
    have listed : start ∈ startsFrom offset (c :: rest)
        ↔ c = '\n' ∧ start = offset + 1 ∨ start ∈ startsFrom (offset + 1) rest := by
      rw [startsFrom]
      split <;> simp [*]
    rw [listed, ih]
    constructor
    · rintro (⟨rfl, rfl⟩ | ⟨place, rfl, found⟩)
      · exact ⟨0, rfl, rfl⟩
      · exact ⟨place + 1, by omega, found⟩
    · rintro ⟨place, rfl, found⟩
      cases place with
      | zero => exact .inl ⟨by simpa using found, rfl⟩
      | succ place => exact .inr ⟨place, by omega, found⟩

/-- A line starts at the start of the text and behind every line feed. -/
theorem mem_starts_iff {start : Nat} : start ∈ (ofText text).starts
      ↔ start = 0 ∨ ∃ place, start = place + 1 ∧ text[place]? = some '\n' := by
  rw [ofText, List.mem_cons, mem_startsFrom_iff]
  simp only [Nat.zero_add]

theorem startsFrom_increase (offset : Nat) (text : List Char) :
    (startsFrom offset text).Pairwise (· < ·) := by
  induction text generalizing offset with
  | nil => exact .nil
  | cons c rest ih =>
    rw [startsFrom]
    split
    · exact .cons (fun _ => lt_of_mem_startsFrom) (ih _)
    · exact ih _

theorem starts_increase (text : List Char) : (ofText text).starts.Pairwise (· < ·) :=
  .cons (fun _ => lt_of_mem_startsFrom) (startsFrom_increase 0 text)

theorem le_iff_lt_length_takeWhile {starts : List Nat} (sorted : starts.Pairwise (· < ·))
    {place start : Nat} (found : starts[place]? = some start) :
    start ≤ offset ↔ place < (starts.takeWhile (· ≤ offset)).length := by
  induction starts generalizing place with
  | nil => cases found
  | cons head rest ih =>
    obtain ⟨above, sorted⟩ := List.pairwise_cons.1 sorted
    rw [List.takeWhile_cons]
    cases place with
    | zero =>
      obtain rfl : head = start := by simpa using found
      split <;> simp_all
    | succ place =>
      have found : rest[place]? = some start := by simpa using found
      have higher := above start (List.mem_of_getElem? found)
      split
      · simpa using ih sorted found
      next outside =>
        rw [decide_eq_true_eq, Nat.not_le] at outside
        simp only [List.length_nil, Nat.not_lt_zero, iff_false, Nat.not_le]
        omega

/-- The line of an offset parts the starts up to the offset from those behind it. The starts
increase, so whatever way of searching finds the part finds the line. -/
theorem start_le_iff {place start : Nat} (found : (ofText text).starts[place]? = some start) :
    start ≤ offset ↔ place < ((ofText text).position offset).line :=
  le_iff_lt_length_takeWhile (starts_increase text) found

/-- **An offset is found again from the start of its line and its column.** -/
theorem start_add_column (text : List Char) (offset : Nat) :
    ∃ start, (ofText text).starts[((ofText text).position offset).line - 1]? = some start
      ∧ start + ((ofText text).position offset).column - 1 = offset := by
  have whole := List.takeWhile_append_dropWhile (p := (decide <| · ≤ offset))
    (l := (ofText text).starts)
  have below : ∀ start ∈ (ofText text).starts.takeWhile (· ≤ offset), start ≤ offset :=
    fun start member => of_decide_eq_true (List.mem_takeWhile_imp member :)
  have filled : (ofText text).starts.takeWhile (· ≤ offset) ≠ [] := by
    rw [ofText, List.takeWhile_cons_of_pos (by simp)]
    exact List.cons_ne_nil _ _
  rw [position]
  generalize (ofText text).starts.takeWhile (· ≤ offset) = before at whole below filled
  refine ⟨before.getLast filled, ?_, ?_⟩
  · have last : before.length - 1 < before.length :=
      Nat.sub_one_lt_of_lt (List.length_pos_iff.2 filled)
    dsimp only
    rw [← whole, List.getElem?_append_left last, ← List.getLast?_eq_getElem?,
      List.getLast?_eq_some_getLast filled]
  · have inside := below _ (List.getLast_mem filled)
    rw [List.getLastD_eq_getLast?, List.getLast?_eq_some_getLast filled, Option.getD_some]
    dsimp only
    omega

end LineIndex

end TemplateLint.Text
