import Mathlib.Order.WellFounded
import TemplateLint.Grammar.LiteralText
import TemplateLint.Proofs.Text.Digit

/-!
# The parts of a string

A part of the body of a string has one of six forms, and from left to right the first form that fits
is taken (`Split`). A body can always be split so, and the value of the string is then put together
from those of the parts (`stringValue?_of_parts`).
-/

namespace TemplateLint.Grammar

open TemplateLint.Syntax TemplateLint.Text

/-- A part of the body of a string. The forms are tried in the order in which they are listed. -/
inductive BodyPart where
  | braced (digits : List Char)
  | unicode (digits : List Char)
  | latin (digits : List Char)
  | lineBreak
  | escaped (c : Char)
  | plain (c : Char)
  deriving DecidableEq, Repr

namespace BodyPart

/-- The characters of a part. -/
def written : BodyPart → List Char
  | .braced digits => '\\' :: 'u' :: '{' :: (digits ++ ['}'])
  | .unicode digits => '\\' :: 'u' :: digits
  | .latin digits => '\\' :: 'x' :: digits
  | .lineBreak => ['\\', '\r', '\n']
  | .escaped c => ['\\', c]
  | .plain c => [c]

/-- The digits of an escape are as many as its kind demands. -/
def Formed : BodyPart → Prop
  | .braced digits => digits ≠ [] ∧ digits.all isHexDigit = true
  | .unicode digits => digits.length = 4 ∧ digits.all isHexDigit = true
  | .latin digits => digits.length = 2 ∧ digits.all isHexDigit = true
  | _ => True

/-- The order in which the kinds of parts are tried. -/
def rank : BodyPart → Nat
  | .braced _ => 0
  | .unicode _ => 1
  | .latin _ => 2
  | .lineBreak => 3
  | .escaped _ => 4
  | .plain _ => 5

def controls : List (Char × Nat) :=
  [('n', 10), ('t', 9), ('r', 13), ('b', 8), ('f', 12), ('v', 11), ('0', 0)]

/-- The code points that a part stands for. -/
def points : BodyPart → List Nat
  | .braced digits | .unicode digits | .latin digits => [valueInBase 16 digits]
  | .lineBreak => []
  | .escaped c =>
    if c = '\r' ∨ c = '\n' then []
    else [((controls.find? (c == ·.1)).map Prod.snd).getD c.toNat]
  | .plain c => [c.toNat]

/-- An escape of a code point that does not exist. -/
def isBeyond : BodyPart → Bool
  | .braced digits => 0x10ffff < valueInBase 16 digits
  | _ => false

/-- A part is what a text starts with, and no form before its own fits there. -/
structure FirstFit (text : List Char) (part : BodyPart) : Prop where
  formed : part.Formed
  starts : part.written <+: text
  first : ∀ other : BodyPart, other.rank < part.rank → other.Formed → ¬ other.written <+: text

theorem length_written_pos (part : BodyPart) : 0 < part.written.length := by
  cases part <;> simp [written]

end BodyPart

/-- The body of a literal in parts, each of the first kind that fits. -/
inductive Split : List Char → List BodyPart → Prop where
  | nil : Split [] []
  | cons {part : BodyPart} {rest : List Char} {parts : List BodyPart}
      (first : part.FirstFit (part.written ++ rest)) (others : Split rest parts) :
      Split (part.written ++ rest) (part :: parts)

theorem exists_split (body : List Char) : ∃ parts, Split body parts := by
  induction size : body.length using Nat.strongRecOn generalizing body with
  | ind size ih =>
    cases body with
    | nil => exact ⟨[], .nil⟩
    | cons c rest =>
      obtain ⟨part, ⟨formed, tail, whole⟩, least⟩ := WellFounded.has_min
        (measure BodyPart.rank).wf {part | part.Formed ∧ part.written <+: c :: rest}
        ⟨.plain c, trivial, rest, rfl⟩
      have first : part.FirstFit (part.written ++ tail) :=
        ⟨formed, ⟨tail, rfl⟩, fun other before fits starts =>
          least other ⟨fits, whole ▸ starts⟩ before⟩
      rw [← whole, List.length_append] at size
      have shorter := part.length_written_pos
      obtain ⟨parts, others⟩ := ih tail.length (by omega) tail rfl
      exact ⟨part :: parts, whole ▸ .cons first others⟩

/-! ## Digits -/

section Digits

variable {text digits : List Char} {value width count : Nat}

theorem bracedHexAt?_append (rest : List Char) (filled : digits ≠ [])
    (hex : digits.all isHexDigit = true) :
    bracedHexAt? ('{' :: (digits ++ '}' :: rest))
      = some (valueInBase 16 digits, digits.length + 2) := by
  have run : (digits ++ '}' :: rest).takeWhile isHexDigit = digits := by
    rw [List.takeWhile_append_of_pos (List.all_eq_true.1 hex)]
    exact List.append_nil digits
  obtain ⟨digit, others, rfl⟩ := List.exists_cons_of_ne_nil filled
  simp only [bracedHexAt?, run, List.drop_left]

theorem exists_of_bracedHexAt? (found : bracedHexAt? text = some (value, width)) :
    ∃ digits, (digits ≠ [] ∧ digits.all isHexDigit = true) ∧ '{' :: (digits ++ ['}']) <+: text := by
  unfold bracedHexAt? at found
  split at found
  · rename_i rest
    simp only at found
    split at found
    · rename_i digit digits more run behind
      have whole := List.prefix_iff_eq_append.1 (List.takeWhile_prefix (l := rest) isHexDigit)
      rw [behind] at whole
      refine ⟨rest.takeWhile isHexDigit, ⟨by simp [run], List.all_takeWhile⟩, more, ?_⟩
      simpa using whole
    · cases found
  · cases found

theorem hexAt?_append (rest : List Char) (size : digits.length = count)
    (hex : digits.all isHexDigit = true) :
    hexAt? count (digits ++ rest) = some (valueInBase 16 digits) := by
  subst size
  simp [hexAt?, hex]

theorem exists_of_hexAt? (found : hexAt? count text = some value) :
    ∃ digits, (digits.length = count ∧ digits.all isHexDigit = true) ∧ digits <+: text := by
  unfold hexAt? at found
  simp only at found
  split at found
  · rename_i fits
    rw [Bool.and_eq_true, decide_eq_true_eq] at fits
    exact ⟨text.take count, fits, List.take_prefix count text⟩
  · cases found

end Digits

/-! ## The pieces of a body -/

namespace BodyPart

def piece : BodyPart → Piece
  | .braced digits | .unicode digits | .latin digits => .point (valueInBase 16 digits)
  | .lineBreak => .continuation
  | .escaped c => if c = '\r' ∨ c = '\n' then .continuation else .escaped c
  | .plain c => .plain c

section FirstFit

variable {part : BodyPart} {text rest : List Char}

theorem FirstFit.bracedHexAt?_eq_none (fit : part.FirstFit ('\\' :: 'u' :: text))
    (later : 0 < part.rank) : bracedHexAt? text = none := by
  cases found : bracedHexAt? text with
  | none => rfl
  | some read =>
    obtain ⟨digits, formed, starts⟩ := exists_of_bracedHexAt? found
    exact absurd (by simpa [written] using starts) (fit.first (.braced digits) later formed)

theorem FirstFit.escapeAt {c : Char} (fit : (escaped c).FirstFit ('\\' :: c :: rest)) :
    escapeAt c rest = ((escaped c).piece, 1) := by
  unfold Grammar.escapeAt
  split
  · rw [fit.bracedHexAt?_eq_none (Nat.succ_pos 3)]
    cases found : hexAt? 4 rest with
    | none => rfl
    | some value =>
      obtain ⟨digits, formed, starts⟩ := exists_of_hexAt? found
      exact absurd (by simpa [written] using starts)
        (fit.first (.unicode digits) (by simp [rank]) formed)
  · cases found : hexAt? 2 rest with
    | none => rfl
    | some value =>
      obtain ⟨digits, formed, starts⟩ := exists_of_hexAt? found
      exact absurd (by simpa [written] using starts)
        (fit.first (.latin digits) (by simp [rank]) formed)
  · split
    · rename_i more
      exact absurd ⟨more, rfl⟩ (fit.first .lineBreak (by simp [rank]) trivial)
    · rfl
  · rfl
  · rename_i noReturn noFeed
    rw [piece, if_neg (not_or.2 ⟨noReturn, noFeed⟩)]

theorem FirstFit.pieceAt {c : Char} (fit : part.FirstFit (c :: text))
    (whole : c :: text = part.written ++ rest) :
    pieceAt c text = (part.piece, part.written.length) := by
  cases part with
  | braced digits =>
    obtain ⟨rfl, rfl⟩ := List.cons.inj whole
    have read := bracedHexAt?_append rest fit.formed.1 fit.formed.2
    simp [Grammar.pieceAt, Grammar.escapeAt, read, piece, written]
    omega
  | unicode digits =>
    obtain ⟨rfl, rfl⟩ := List.cons.inj whole
    have read := hexAt?_append rest fit.formed.1 fit.formed.2
    have other : bracedHexAt? (digits ++ rest) = none := fit.bracedHexAt?_eq_none Nat.zero_lt_one
    simp [Grammar.pieceAt, Grammar.escapeAt, read, other, piece, written, fit.formed.1]
  | latin digits =>
    obtain ⟨rfl, rfl⟩ := List.cons.inj whole
    have read := hexAt?_append rest fit.formed.1 fit.formed.2
    simp [Grammar.pieceAt, Grammar.escapeAt, read, piece, written, fit.formed.1]
  | lineBreak =>
    obtain ⟨rfl, rfl⟩ := List.cons.inj whole
    rfl
  | escaped next =>
    obtain ⟨rfl, rfl⟩ := List.cons.inj whole
    have read : Grammar.escapeAt next rest = _ := fit.escapeAt
    simp [Grammar.pieceAt, read, written]
  | plain d =>
    obtain ⟨rfl, rfl⟩ := List.cons.inj whole
    unfold Grammar.pieceAt
    split
    · rename_i next more
      exact absurd ⟨more, rfl⟩ (fit.first (.escaped next) (by simp [rank]) trivial)
    · rfl

end FirstFit

theorem escapedValue_eq (c : Char) :
    Piece.escapedValue c = ((controls.find? (c == ·.1)).map Prod.snd).getD c.toNat := by
  unfold Piece.escapedValue
  split
  case h_8 => simp_all [controls]
  all_goals rfl

theorem points?_piece {part : BodyPart} (formed : part.Formed) :
    part.piece.points? = if part.isBeyond then none else some part.points := by
  cases part with
  | braced digits =>
    simp only [piece, Piece.points?, isBeyond, points, decide_eq_true_eq]
    split
    · rw [if_neg (by omega)]
    · rw [if_pos (by omega)]
  | unicode digits | latin digits =>
    have small := valueInBase_lt digits
    rw [formed.1] at small
    exact if_pos (Nat.le_trans (Nat.le_of_lt small) (by decide))
  | escaped c =>
    simp only [piece, isBeyond, points]
    split
    · rfl
    · rw [Piece.points?, escapedValue_eq]
      rfl
  | lineBreak | plain c => rfl

end BodyPart

theorem Split.piecesUpTo_eq {body : List Char} {parts : List BodyPart} (split : Split body parts)
    {fuel : Nat} (enough : body.length ≤ fuel) :
    piecesUpTo fuel body = parts.map BodyPart.piece := by
  induction split generalizing fuel with
  | nil => cases fuel <;> rfl
  | @cons part rest parts first others ih =>
    have filled := part.length_written_pos
    rw [List.length_append] at enough
    obtain ⟨fuel, rfl⟩ := Nat.exists_eq_add_of_lt (show 0 < fuel by omega)
    cases whole : part.written ++ rest with
    | nil => simp_all
    | cons c text =>
      have step := (whole ▸ first).pieceAt whole.symm
      simp only [Nat.zero_add, piecesUpTo, step]
      rw [← whole, List.drop_left, ih (by omega), List.map_cons]

theorem Split.stringPoints?_eq {body : List Char} {parts : List BodyPart}
    (split : Split body parts) :
    stringPoints? body
      = if parts.any BodyPart.isBeyond then none else some (parts.flatMap BodyPart.points) := by
  rw [stringPoints?, pieces, split.piecesUpTo_eq (Nat.le_refl _)]
  induction split with
  | nil => rfl
  | @cons part rest parts first others ih =>
    rw [List.map_cons, List.mapM_cons, BodyPart.points?_piece first.formed]
    cases beyond : part.isBeyond with
    | true => simp [beyond]
    | false =>
      rw [List.any_cons, beyond, Bool.false_or, List.flatMap_cons]
      cases later : (parts.map BodyPart.piece).mapM Piece.points? with
      | none | some values =>
        rw [later] at ih
        split at ih <;> simp_all

/-- A code point as an escape with braces. -/
def spelled (point : Nat) : List Char := '\\' :: 'u' :: '{' :: (Nat.toDigits 16 point ++ ['}'])

theorem split_spelled (points : List Nat) :
    Split (points.flatMap spelled) (points.map fun point => .braced (Nat.toDigits 16 point)) := by
  induction points with
  | nil => exact .nil
  | cons point rest ih =>
    have formed : (BodyPart.braced (Nat.toDigits 16 point)).Formed :=
      ⟨Nat.toDigits_ne_nil, all_isHexDigit_toDigits point⟩
    exact .cons ⟨formed, ⟨_, rfl⟩, fun _ before => absurd before (Nat.not_lt_zero _)⟩ ih

/-- **A string is the concatenation of its parts.** Every body can be split from left to right into
the first parts that fit. However it is split so, the string has no value if a braced number lies
beyond the last code point, and else the code points that the parts give one after the other. So
code points that are spelled out are read back. -/
theorem stringValue?_of_parts (mark : Char) (body : List Char) :
    (∃ parts, Split body parts)
    ∧ (∀ parts, Split body parts → stringValue? (mark :: (body ++ [mark]))
        = if parts.any BodyPart.isBeyond then none
          else some (.text (parts.flatMap BodyPart.points)))
    ∧ ∀ points : List Nat, (∀ point ∈ points, point ≤ 0x10ffff) →
        stringValue? (mark :: (points.flatMap spelled ++ [mark])) = some (.text points) := by
  have whole : ∀ {body parts}, Split body parts → stringValue? (mark :: (body ++ [mark]))
      = if parts.any BodyPart.isBeyond then none
        else some (.text (parts.flatMap BodyPart.points)) := by
    intro body parts split
    rw [stringValue?, unquoted, List.drop_one, List.tail_cons, List.dropLast_concat,
      split.stringPoints?_eq]
    split <;> rfl
  refine ⟨exists_split body, fun parts => whole, fun points small => ?_⟩
  rw [whole (split_spelled points), if_neg]
  · simp [List.flatMap_map, BodyPart.points, valueInBase_toDigits]
  · simpa [BodyPart.isBeyond, valueInBase_toDigits] using small

end TemplateLint.Grammar
