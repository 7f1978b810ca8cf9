import TemplateLint.Json.Read
import TemplateLint.Json.Write
import TemplateLint.Proofs.Entries
import TemplateLint.Proofs.Text.Digit

/-!
# Reading what was written

A value of texts, integers and objects that name each member once is read back from the line
that writes it (`parseWith?_render`). Every lemma about a part of a value leaves the text after
this part free, so that the lemmas fit together as the parts do. The line has printable ASCII
characters only (`ReadsBack.all_isPrintable`).
-/

namespace TemplateLint.Json

open TemplateLint.Text

/-! ## Characters in strings -/

theorem unit?_hexDigits {unit : Nat} (small : unit < 0x10000) (rest : List Char) :
    unit? ((hexDigits 4 unit).toList ++ rest) = some (unit, rest) := by
  have value : ∀ place, hexValue? (Nat.digitChar (unit / Nat.pow 16 place % 16))
      = some (unit / Nat.pow 16 place % 16) :=
    fun place => hexValue?_digitChar _ (Nat.mod_lt _ (by decide))
  have four : (List.range 4).reverse = [3, 2, 1, 0] := rfl
  simp only [hexDigits, String.toList_ofList, four, List.map_cons, List.map_nil, List.cons_append,
    List.nil_append, unit?, List.all_cons, List.all_nil, isHexDigit, value, Option.isSome_some,
    Bool.and_self, if_true, valueInBase, List.foldl_cons, List.foldl_nil, Option.getD_some]
  congr 2
  simp only [Nat.pow_eq]
  omega

theorem toNat_valid (c : Char) :
    c.toNat < 0xd800 ∨ 0xdfff < c.toNat ∧ c.toNat < 0x110000 := c.valid

@[simp]
theorem toList_unitEscape (unit : Nat) :
    (unitEscape unit).toList = '\\' :: 'u' :: (hexDigits 4 unit).toList := by
  simp [unitEscape]

theorem joinUnits_pair {high low : Nat} (isHigh : 0xd800 ≤ high ∧ high < 0xdc00)
    (isLow : 0xdc00 ≤ low ∧ low < 0xe000) (rest : List Char) :
    joinUnits high ((unitEscape low).toList ++ rest)
      = (Char.ofNat (0x10000 + (high - 0xd800) * 0x400 + (low - 0xdc00)), rest) := by
  have second := unit?_hexDigits (show low < 0x10000 by omega) rest
  simp [joinUnits, isHigh, isLow, second]

theorem joinUnits_single {c : Char} (small : c.toNat < 0x10000) (rest : List Char) :
    joinUnits c.toNat rest = (c, rest) := by
  have valid := toNat_valid c
  have notHigh : ¬ (0xd800 ≤ c.toNat ∧ c.toNat < 0xdc00) := by omega
  have notHalf : ¬ (0xd800 ≤ c.toNat ∧ c.toNat < 0xe000) := by omega
  simp only [joinUnits, unitChar, Bool.and_eq_true, decide_eq_true_eq, if_neg notHigh,
    if_neg notHalf, Char.ofNat_toNat]

/-- The printable characters of ASCII, the blank among them. -/
def isPrintable (c : Char) : Bool := 0x20 ≤ c.toNat && c.toNat < 0x7f

/-- The classes of characters that the writer tells apart: a letter after a mark, the
character itself, one unit, or the two units of a surrogate pair. -/
theorem escapeChar_cases (c : Char) :
    (∃ letter, (escapeChar c).toList = ['\\', letter] ∧ letterEscape? letter = some c
        ∧ isPrintable letter = true ∧ letter ≠ 'u')
      ∨ ((escapeChar c).toList = [c] ∧ isPrintable c = true ∧ c ≠ '"' ∧ c ≠ '\\')
      ∨ (escapeChar c = unitEscape c.toNat ∧ c.toNat < 0x10000)
      ∨ ∃ high low, escapeChar c = unitEscape high ++ unitEscape low
          ∧ (0xd800 ≤ high ∧ high < 0xdc00) ∧ (0xdc00 ≤ low ∧ low < 0xe000)
          ∧ 0x10000 + (high - 0xd800) * 0x400 + (low - 0xdc00) = c.toNat := by
  unfold escapeChar
  split
  · exact .inl ⟨'"', by decide⟩
  · exact .inl ⟨'\\', by decide⟩
  · exact .inl ⟨'n', by decide⟩
  · exact .inl ⟨'r', by decide⟩
  · exact .inl ⟨'t', by decide⟩
  · rename_i notQuote notMark _ _ _
    simp only
    split
    case isTrue eight =>
      have back : c = Char.ofNat 8 := by rw [← eight, Char.ofNat_toNat]
      subst back
      exact .inl ⟨'b', by decide⟩
    case isFalse =>
    split
    case isTrue twelve =>
      have feed : c = Char.ofNat 12 := by rw [← twelve, Char.ofNat_toNat]
      subst feed
      exact .inl ⟨'f', by decide⟩
    case isFalse =>
    split
    case isTrue plain =>
      exact .inr (.inl ⟨by simp, plain, notQuote, notMark⟩)
    case isFalse =>
    split
    case isTrue small => exact .inr (.inr (.inl ⟨rfl, small⟩))
    case isFalse large =>
      have valid := toNat_valid c
      exact .inr (.inr (.inr ⟨_, _, rfl, by omega, by omega, by omega⟩))

theorem stringRest?_unitEscape (fuel : Nat) {unit : Nat} (small : unit < 0x10000)
    (rest : List Char) :
    stringRest? (fuel + 1) ((unitEscape unit).toList ++ rest)
      = (stringRest? fuel (joinUnits unit rest).2).map fun found =>
          ((joinUnits unit rest).1 :: found.1, found.2) := by
  cases found : stringRest? fuel (joinUnits unit rest).2 <;>
    simp [stringRest?, unit?_hexDigits small, found]

theorem stringRest?_escapeChar (fuel : Nat) (c : Char) (rest : List Char) :
    stringRest? (fuel + 1) ((escapeChar c).toList ++ rest)
      = (stringRest? fuel rest).map fun found => (c :: found.1, found.2) := by
  obtain ⟨letter, written, read, -, notUnit⟩ | ⟨written, printable, notQuote, notMark⟩
    | ⟨written, small⟩ | ⟨high, low, written, isHigh, isLow, sum⟩ := escapeChar_cases c
  · rw [written]
    cases found : stringRest? fuel rest <;> simp [stringRest?, read, found]
  · have notControl : ¬ c.toNat < 0x20 := by
      simp only [isPrintable, Bool.and_eq_true, decide_eq_true_eq] at printable
      omega
    rw [written]
    cases found : stringRest? fuel rest <;> simp [stringRest?, notControl, notMark, found]
  · rw [written, stringRest?_unitEscape fuel small, joinUnits_single small]
  · rw [written, String.toList_append, List.append_assoc,
      stringRest?_unitEscape fuel (by omega), joinUnits_pair isHigh isLow, sum, Char.ofNat_toNat]

/-! ## Strings -/

/-- Characters as they are written between quotes. -/
def escaped (chars : List Char) : List Char := chars.flatMap fun c => (escapeChar c).toList

theorem toList_renderText (value : String) :
    (renderText value).toList = '"' :: (escaped value.toList ++ ['"']) := by
  simp [renderText, escaped, String.toList_join, List.flatMap_map]

theorem stringRest?_escaped (chars rest : List Char) {fuel : Nat} (enough : chars.length < fuel) :
    stringRest? fuel (escaped chars ++ '"' :: rest) = some (chars, rest) := by
  induction chars generalizing fuel with
  | nil =>
    obtain ⟨fuel, rfl⟩ := Nat.exists_eq_add_of_lt enough
    rfl
  | cons c chars ih =>
    obtain ⟨fuel, rfl⟩ := Nat.exists_eq_succ_of_ne_zero (Nat.ne_of_gt (Nat.zero_lt_of_lt enough))
    have later := ih (Nat.lt_of_succ_lt_succ enough)
    rw [escaped, List.flatMap_cons, List.append_assoc, stringRest?_escapeChar]
    exact (congrArg _ later).trans rfl

theorem length_le_escaped (chars : List Char) : chars.length ≤ (escaped chars).length := by
  induction chars with
  | nil => exact Nat.le_refl _
  | cons c chars ih =>
    have some : 0 < (escapeChar c).toList.length := by
      obtain ⟨letter, written, -⟩ | ⟨written, -⟩ | ⟨written, -⟩ | ⟨high, low, written, -⟩ :=
        escapeChar_cases c <;> simp [written]
    simp only [escaped, List.flatMap_cons, List.length_append, List.length_cons] at ih ⊢
    omega

theorem string?_escaped (value : String) (rest : List Char) :
    string? (escaped value.toList ++ '"' :: rest) = some (value, rest) := by
  have enough : value.toList.length < (escaped value.toList ++ '"' :: rest).length + 1 := by
    have := length_le_escaped value.toList
    simp only [List.length_append]
    omega
  simp only [string?, stringRest?_escaped _ _ enough, Option.map_some, String.ofList_toList]

/-! ## Integers -/

/-- The text after a number does not carry it on. -/
def EndsNumber (rest : List Char) : Prop :=
  ∀ c ∈ rest.head?, c.isDigit = false ∧ c ≠ '.' ∧ c ≠ 'e' ∧ c ≠ 'E'

/-- The digits of an integer, without its sign. -/
def digitsOf (value : Int) : List Char := Nat.toDigits 10 value.natAbs

theorem eq_zero_of_toDigits {value : Nat} {later : List Char}
    (first : Nat.toDigits 10 value = '0' :: later) : value = 0 := by
  induction value using Nat.strongRecOn generalizing later with
  | _ value ih =>
    rw [Nat.toDigits_eq_if (by decide)] at first
    split at first
    case isTrue small =>
      have digits : ∀ digit < 10, Nat.digitChar digit = '0' → digit = 0 := by decide
      exact digits value small (List.cons.inj first).1
    case isFalse large =>
      obtain ⟨digit, more, front⟩ := List.exists_cons_of_ne_nil
        (Nat.toDigits_ne_nil (n := value / 10) (b := 10))
      rw [front, List.cons_append] at first
      have zero := ih (value / 10) (by omega) (front.trans (by rw [(List.cons.inj first).1]))
      omega

theorem wholeDigits?_toDigits (value : Nat) {rest : List Char} (ends : EndsNumber rest) :
    wholeDigits? (Nat.toDigits 10 value ++ rest) = some (Nat.toDigits 10 value, rest) := by
  have all : ∀ c ∈ Nat.toDigits 10 value, c.isDigit = true :=
    fun c member => Nat.isDigit_of_mem_toDigits (by decide) (by decide) member
  have found : digits (Nat.toDigits 10 value ++ rest) = (Nat.toDigits 10 value, rest) := by
    rw [digits, List.takeWhile_append_of_pos all, List.dropWhile_append_of_pos all]
    cases rest with
    | nil => simp
    | cons c rest => simp [(ends c rfl).1]
  cases front : Nat.toDigits 10 value with
  | nil => exact absurd front Nat.toDigits_ne_nil
  | cons c later =>
    rw [front] at found
    by_cases zero : c = '0'
    · subst zero
      have only : value = 0 := eq_zero_of_toDigits front
      subst only
      rw [← (List.cons.inj front).2]
      rfl
    · rw [List.cons_append] at found ⊢
      simp [wholeDigits?, zero, found]

theorem toList_toString (value : Int) :
    (toString value).toList = (if value < 0 then ['-'] else []) ++ digitsOf value := by
  rw [Int.toString_eq_repr, Int.repr_eq_if, digitsOf]
  by_cases negative : value < 0
  · have size : (-value).toNat = value.natAbs := by omega
    simp [negative, Int.not_le.2 negative, size, Nat.repr_eq_ofList_toDigits]
  · have size : value.toNat = value.natAbs := by omega
    simp [negative, Int.not_lt.1 negative, size, Nat.repr_eq_ofList_toDigits]

theorem exists_digitsOf (value : Int) :
    ∃ c later, digitsOf value = c :: later ∧ c.isDigit = true := by
  obtain ⟨c, later, front⟩ := List.exists_cons_of_ne_nil
    (Nat.toDigits_ne_nil (n := value.natAbs) (b := 10))
  have member : c ∈ Nat.toDigits 10 value.natAbs := by simp [front]
  exact ⟨c, later, front, Nat.isDigit_of_mem_toDigits (by decide) (by decide) member⟩

theorem ne_of_isDigit {c other : Char} (digit : c.isDigit = true)
    (notDigit : other.isDigit = false) : c ≠ other := by
  rintro rfl
  exact Bool.false_ne_true (notDigit.symm.trans digit)

theorem fractionDigits_of_ends {rest : List Char} (ends : EndsNumber rest) :
    fractionDigits rest = ([], rest) := by
  cases rest with
  | nil => rfl
  | cons c rest => simp [fractionDigits, (ends c rfl).2.1]

theorem exponent?_of_ends {rest : List Char} (ends : EndsNumber rest) : exponent? rest = none := by
  cases rest with
  | nil => rfl
  | cons c rest => simp [exponent?, (ends c rfl).2.2]

theorem number?_toString (limit? : Option Nat) (value : Int) {rest : List Char}
    (ends : EndsNumber rest) (fits : limit?.all ((digitsOf value).length ≤ ·) = true) :
    number? limit? ((toString value).toList ++ rest) = some (.int value, rest) := by
  have whole : wholeDigits? (digitsOf value ++ rest) = some (digitsOf value, rest) :=
    wholeDigits?_toDigits _ ends
  have size : decimalValue (digitsOf value) = value.natAbs := decimalValue_toDigits _
  have fraction := fractionDigits_of_ends ends
  have exponent := exponent?_of_ends ends
  rw [toList_toString]
  by_cases negative : value < 0
  · have back : -(decimalValue (digitsOf value) : Int) = value := by omega
    simp [number?, negative, whole, fraction, exponent, fits, back]
  · have back : (decimalValue (digitsOf value) : Int) = value := by omega
    obtain ⟨c, later, front, isDigit⟩ := exists_digitsOf value
    have unsigned : c ≠ '-' := ne_of_isDigit isDigit (by decide)
    have shape : digitsOf value ++ rest = c :: (later ++ rest) := congrArg (· ++ rest) front
    rw [if_neg negative, List.nil_append, shape]
    rw [shape] at whole
    simp [number?, unsigned, whole, fraction, exponent, fits, back]

/-! ## Values -/

variable {limit? : Option Nat}

theorem atom?_toString (limit? : Option Nat) (value : Int) {rest : List Char}
    (ends : EndsNumber rest) (fits : limit?.all ((digitsOf value).length ≤ ·) = true) :
    atom? limit? ((toString value).toList ++ rest) = some (.int value, rest) := by
  have number := number?_toString limit? value ends fits
  obtain ⟨c, later, front, isDigit⟩ := exists_digitsOf value
  have other : ∀ letter : Char, letter.isDigit = false → letter ≠ c :=
    fun letter notDigit => (ne_of_isDigit isDigit notDigit).symm
  rw [toList_toString, front] at number ⊢
  by_cases negative : value < 0
  · simpa [atom?, words, List.isPrefixOf, negative, other] using number
  · simpa [atom?, words, List.isPrefixOf, negative, other] using number

theorem value?_of_first (limit? : Option Nat) (fuel : Nat) {c : Char} (rest : List Char)
    (plain : c ≠ '"' ∧ c ≠ '[' ∧ c ≠ '\x7b') :
    value? limit? (fuel + 1) (c :: rest) = atom? limit? (c :: rest) := by
  simp [value?, plain]

/-- The values of texts, integers and objects that are read back under a limit on the digits of
integers: an object names each member once. -/
inductive ReadsBack (limit? : Option Nat) : Json → Prop where
  | int (value : Int) (fits : limit?.all ((digitsOf value).length ≤ ·) = true) :
      ReadsBack limit? (.int value)
  | text (value : String) : ReadsBack limit? (.text value)
  | object (members : Entries Json) (distinct : members.names.Nodup)
      (each : ∀ member ∈ members, ReadsBack limit? member.2) : ReadsBack limit? (.object members)

def memberChars (member : String × Json) : List Char :=
  '"' :: (escaped member.1.toList ++ '"' :: ':' :: ' ' :: member.2.render.toList)

def joined (members : Entries Json) : List Char :=
  [',', ' '].intercalate (members.map memberChars)

theorem toList_renderMembers (members : Entries Json) :
    (renderMembers members).map String.toList = members.map memberChars := by
  induction members with
  | nil => rfl
  | cons member rest ih =>
    simp [renderMembers, ih, memberChars, toList_renderText]

theorem toList_render_object (members : Entries Json) :
    (render (.object members)).toList
      = '\x7b' :: (joined members ++ ['\x7d']) := by
  simp [render, joined, String.toList_intercalate, toList_renderMembers]

theorem exists_first_toString (value : Int) :
    ∃ c later, (toString value).toList = c :: later
      ∧ ∀ other : Char, other.isDigit = false → other ≠ '-' → c ≠ other := by
  obtain ⟨c, later, front, isDigit⟩ := exists_digitsOf value
  rw [toList_toString, front]
  by_cases negative : value < 0
  · rw [if_pos negative]
    exact ⟨'-', _, rfl, fun other _ unsigned => unsigned.symm⟩
  · rw [if_neg negative]
    exact ⟨c, later, rfl, fun other notDigit _ => ne_of_isDigit isDigit notDigit⟩

theorem ReadsBack.begins {value : Json} (readable : ReadsBack limit? value) :
    ∃ c later, value.render.toList = c :: later ∧ isSeparator c = false := by
  cases readable with
  | int value =>
    obtain ⟨c, later, front, unlike⟩ := exists_first_toString value
    exact ⟨c, later, front, by simp [isSeparator, unlike]⟩
  | text value => exact ⟨'"', _, toList_renderText value, by decide⟩
  | object members => exact ⟨'\x7b', _, toList_render_object members, by decide⟩

theorem skipBlanks_cons {c : Char} (notBlank : isSeparator c = false) (rest : List Char) :
    skipBlanks (c :: rest) = c :: rest := by
  simp [skipBlanks, notBlank]

theorem ReadsBack.skipBlanks_render {value : Json}
    (readable : ReadsBack limit? value) (rest : List Char) :
    skipBlanks (value.render.toList ++ rest) = value.render.toList ++ rest := by
  obtain ⟨c, later, front, notBlank⟩ := readable.begins
  rw [front]
  exact skipBlanks_cons notBlank _

/-- A value is read back whatever follows, if this does not carry a number on. -/
def IsReturned (limit? : Option Nat) (value : Json) : Prop :=
  ∀ (fuel : Nat) (rest : List Char), value.render.toList.length ≤ fuel → EndsNumber rest →
    value? limit? fuel (skipBlanks (value.render.toList ++ rest)) = some (value, rest)

theorem endsNumber_cons {c : Char} (rest : List Char)
    (ends : c.isDigit = false ∧ c ≠ '.' ∧ c ≠ 'e' ∧ c ≠ 'E') : EndsNumber (c :: rest) := by
  rintro first ⟨⟩
  exact ends

theorem joined_singleton (member : String × Json) : joined [member] = memberChars member := by
  simp [joined]

theorem joined_cons_cons (first second : String × Json) (later : Entries Json) :
    joined (first :: second :: later)
      = memberChars first ++ ',' :: ' ' :: joined (second :: later) := by
  simp [joined]

theorem joined_begins (first : String × Json) (later : Entries Json) :
    ∃ more, joined (first :: later) = '"' :: more := by
  cases later with
  | nil => exact ⟨_, joined_singleton first⟩
  | cons second later => exact ⟨_, joined_cons_cons first second later⟩

theorem memberChars_append (member : String × Json) (rest : List Char) :
    memberChars member ++ rest
      = '"' :: (escaped member.1.toList
        ++ '"' :: ':' :: ' ' :: (member.2.render.toList ++ rest)) := by
  simp [memberChars]

theorem length_render_le_memberChars (member : String × Json) :
    member.2.render.toList.length ≤ (memberChars member).length := by
  simp only [memberChars, List.length_cons, List.length_append]
  omega

theorem fresh_of_nodup {before later : Entries Json} {first : String × Json}
    (distinct : (before ++ first :: later).names.Nodup) : first.1 ∉ before.names := by
  rw [Entries.names, List.map_append, List.nodup_append] at distinct
  exact fun member => distinct.2.2 _ member _ (.head _) rfl

theorem members?_last {fuel : Nat} (before : Entries Json)
    {member : String × Json} {rest : List Char}
    (read : value? limit? fuel (skipBlanks (member.2.render.toList ++ '\x7d' :: rest))
      = some (member.2, '\x7d' :: rest)) :
    members? limit? (fuel + 1) before (memberChars member ++ '\x7d' :: rest)
      = some (before.set member.1 member.2, rest) := by
  rw [memberChars_append, members?, skipBlanks_cons (by decide)]
  simp only [string?_escaped, Option.bind_eq_bind, Option.bind_some]
  exact congrArg (Option.bind · _) read

theorem members?_more {fuel : Nat} (before : Entries Json)
    {member : String × Json} {rest : List Char}
    (read : value? limit? fuel (skipBlanks (member.2.render.toList ++ ',' :: ' ' :: rest))
      = some (member.2, ',' :: ' ' :: rest)) :
    members? limit? (fuel + 1) before (memberChars member ++ ',' :: ' ' :: rest)
      = members? limit? fuel (before.set member.1 member.2) rest := by
  have blank : ∀ entries, members? limit? fuel entries (' ' :: rest)
      = members? limit? fuel entries rest := by
    intro entries
    cases fuel <;> rfl
  rw [memberChars_append, members?, skipBlanks_cons (by decide), ← blank]
  simp only [string?_escaped, Option.bind_eq_bind, Option.bind_some]
  exact congrArg (Option.bind · _) read

theorem members?_joined (before : Entries Json) {first : String × Json}
    {later : Entries Json} (each : ∀ member ∈ first :: later, IsReturned limit? member.2)
    (distinct : (before ++ first :: later).names.Nodup) (rest : List Char) (fuel : Nat)
    (enough : (joined (first :: later)).length < fuel) :
    members? limit? fuel before (joined (first :: later) ++ '\x7d' :: rest)
      = some (before ++ first :: later, rest) := by
  induction later generalizing before first fuel with
  | nil =>
    have size := length_render_le_memberChars first
    obtain ⟨fuel, rfl⟩ := Nat.exists_eq_succ_of_ne_zero (Nat.ne_zero_of_lt enough)
    rw [joined_singleton] at enough ⊢
    rw [members?_last before (each first (.head _) fuel _ (by omega)
      (endsNumber_cons _ (by decide))), Entries.set_of_not_mem (fresh_of_nodup distinct)]
  | cons second later ih =>
    have apart : before ++ first :: second :: later = (before ++ [first]) ++ second :: later :=
      List.append_cons ..
    have size := length_render_le_memberChars first
    obtain ⟨fuel, rfl⟩ := Nat.exists_eq_succ_of_ne_zero (Nat.ne_zero_of_lt enough)
    rw [joined_cons_cons] at enough ⊢
    simp only [List.length_append, List.length_cons] at enough
    have others := ih _ (fun member found => each member (.tail _ found)) (apart ▸ distinct) fuel
      (by omega)
    rw [List.append_assoc, List.cons_append, List.cons_append,
      members?_more before (each first (.head _) fuel _ (by omega)
        (endsNumber_cons _ (by decide))), Entries.set_of_not_mem (fresh_of_nodup distinct), others,
      apart]

theorem ReadsBack.isReturned_of {value : Json}
    (readable : ReadsBack limit? value)
    (read : ∀ (fuel : Nat) (rest : List Char), value.render.toList.length ≤ fuel + 1 →
      EndsNumber rest →
      value? limit? (fuel + 1) (value.render.toList ++ rest) = some (value, rest)) :
    IsReturned limit? value := by
  intro fuel rest enough ends
  obtain ⟨c, later, front, -⟩ := readable.begins
  have size : value.render.toList.length = later.length + 1 := congrArg List.length front
  obtain ⟨fuel, rfl⟩ := Nat.exists_eq_succ_of_ne_zero (show fuel ≠ 0 by omega)
  rw [readable.skipBlanks_render]
  exact read fuel rest enough ends

theorem ReadsBack.isReturned {value : Json}
    (readable : ReadsBack limit? value) : IsReturned limit? value := by
  induction readable with
  | int value fits =>
    refine (ReadsBack.int value fits).isReturned_of fun fuel rest _ ends => ?_
    obtain ⟨c, later, front, unlike⟩ := exists_first_toString value
    have atom := atom?_toString limit? value ends fits
    rw [render]
    rw [front, List.cons_append] at atom ⊢
    rw [value?_of_first limit? fuel _ (by simp [unlike]), atom]
  | text value =>
    refine (ReadsBack.text value).isReturned_of fun fuel rest _ _ => ?_
    rw [render, toList_renderText]
    simp [value?, string?_escaped]
  | object members distinct each ih =>
    refine (ReadsBack.object members distinct each).isReturned_of fun fuel rest enough _ => ?_
    rw [toList_render_object] at enough ⊢
    cases members with
    | nil => rfl
    | cons first later =>
      have mark : isSeparator '"' = false := by decide
      obtain ⟨more, begins⟩ := joined_begins first later
      have read := members?_joined [] ih distinct rest fuel (by simp at enough ⊢; omega)
      rw [begins] at read ⊢
      simp only [List.cons_append, List.append_assoc, List.nil_append] at read ⊢
      simp [value?, skipBlanks_cons mark, read]

/-- What is written is read back. -/
theorem parseWith?_render {value : Json} (readable : ReadsBack limit? value) :
    parseWith? limit? value.render = some value := by
  have read := readable.isReturned (2 * value.render.toList.length + 2) [] (by omega)
    (by rintro c ⟨⟩)
  rw [List.append_nil] at read
  simp only [parseWith?, read]
  rfl

/-! ## Printable lines -/

theorem all_isPrintable_unitEscape (unit : Nat) :
    (unitEscape unit).toList.all isPrintable = true := by
  have digits : ∀ digit < 16, isPrintable (Nat.digitChar digit) = true := by decide
  have mark : isPrintable '\\' = true ∧ isPrintable 'u' = true := by decide
  simp [hexDigits, mark, digits, Nat.mod_lt]

theorem all_isPrintable_escaped (chars : List Char) : (escaped chars).all isPrintable = true := by
  rw [escaped, List.all_flatMap, List.all_eq_true]
  intro c _
  obtain ⟨letter, written, -, printable, -⟩ | ⟨written, printable, -⟩ | ⟨written, -⟩
    | ⟨high, low, written, -⟩ := escapeChar_cases c
  · have mark : isPrintable '\\' = true := by decide
    simp [written, mark, printable]
  · simp [written, printable]
  · rw [written, all_isPrintable_unitEscape]
  · simp only [written, String.toList_append, List.all_append, all_isPrintable_unitEscape,
      Bool.and_self]

theorem all_isPrintable_joined {members : Entries Json}
    (each : ∀ member ∈ members, (memberChars member).all isPrintable = true) :
    (joined members).all isPrintable = true := by
  have marks : isPrintable ',' = true ∧ isPrintable ' ' = true := by decide
  induction members with
  | nil => rfl
  | cons first later ih =>
    have others := ih fun member found => each member (.tail _ found)
    cases later with
    | nil => exact joined_singleton first ▸ each first (.head _)
    | cons second later =>
      rw [joined_cons_cons, List.all_append, each first (.head _), List.all_cons, List.all_cons,
        others, marks.1, marks.2]
      rfl

/-- What is written has only printable characters, so it is one line. -/
theorem ReadsBack.all_isPrintable {value : Json}
    (readable : ReadsBack limit? value) : value.render.toList.all isPrintable = true := by
  induction readable with
  | int value =>
    have digits : (digitsOf value).all isPrintable = true := by
      rw [List.all_eq_true]
      intro c member
      have digit : 48 ≤ c.toNat ∧ c.toNat ≤ 57 := Char.isDigit_iff_toNat.1
        (Nat.isDigit_of_mem_toDigits (by decide) (by decide) member)
      simp only [isPrintable, Bool.and_eq_true, decide_eq_true_eq]
      omega
    have sign : isPrintable '-' = true := by decide
    rw [render, toList_toString, List.all_append, digits]
    split <;> simp [sign]
  | text value =>
    have mark : isPrintable '"' = true := by decide
    simp [render, toList_renderText, all_isPrintable_escaped, mark]
  | object members distinct each ih =>
    have marks : isPrintable '\x7b' = true ∧ isPrintable '\x7d' = true := by decide
    have parts : ∀ member ∈ members, (memberChars member).all isPrintable = true := by
      intro member found
      have inner : isPrintable '"' = true ∧ isPrintable ':' = true ∧ isPrintable ' ' = true := by
        decide
      rw [memberChars, List.all_cons, List.all_append, all_isPrintable_escaped]
      simp only [List.all_cons, inner, ih member found, Bool.and_self]
    rw [toList_render_object, List.all_cons, List.all_append, all_isPrintable_joined parts]
    simp [marks]

end TemplateLint.Json
