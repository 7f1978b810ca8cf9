import TemplateLint.Grammar.Peg
import TemplateLint.Proofs.Grammar.Scan

/-!
# Readings without a chart

`Reads` says what an expression of a grammar reads at an offset, and mentions neither charts nor
fuel. It has at most one outcome (`Reads.unique`), and none for a rule that calls itself at its own
offset or a repetition of a part that reads nothing. In a progressive grammar neither occurs, and
the value of an expression on a chart is its outcome (`RankedGrammar.Progressive.reads_iff`).
-/

namespace TemplateLint.Grammar

variable {Category Value Fault : Type}

@[simp] theorem Match.width_append {α β γ : Type} (f : α → β → γ) (first : Match Fault α)
    (second : Match Fault β) : (first.append f second).width = first.width + second.width := rfl

/-! ## Outcomes -/

/-- What an expression reads at an offset: a match, or `none` if it fails. The text is the one
that remains at the offset. -/
inductive Reads (grammar : RankedGrammar Category Value Fault) :
    {α : Type} → Peg Category Value Fault α → Nat → List Char → Option (Match Fault α) → Prop where
  | pure {α : Type} {offset : Nat} {text : List Char} (value : α) :
      Reads grammar (.pure value) offset text (some (.empty value))
  | terminal {offset : Nat} {text : List Char} (class_ : Terminal) :
      Reads grammar (.terminal class_) offset text ((class_.scan text).map fun width =>
        ⟨.ok (String.ofList (text.take width)), width, .leaf class_ offset width⟩)
  | rule {offset : Nat} {text : List Char} {name : Category} {outcome : Option (Match Fault Value)}
      (inner : Reads grammar (grammar.body name) offset text outcome) :
      Reads grammar (.rule name) offset text outcome
  | sequence {α β : Type} {offset : Nat} {text : List Char}
      {first : Peg Category Value Fault (α → β)} {second : Peg Category Value Fault α}
      {left : Match Fault (α → β)} {outcome : Option (Match Fault α)}
      (former : Reads grammar first offset text (some left))
      (latter : Reads grammar second (offset + left.width) (text.drop left.width) outcome) :
      Reads grammar (.sequence first second) offset text
        (outcome.map fun right => left.append (fun f value => f value) right)
  | sequenceFails {α β : Type} {offset : Nat} {text : List Char}
      {first : Peg Category Value Fault (α → β)} {second : Peg Category Value Fault α}
      (former : Reads grammar first offset text none) :
      Reads grammar (.sequence first second) offset text none
  | choice {α : Type} {offset : Nat} {text : List Char} {first second : Peg Category Value Fault α}
      {result : Match Fault α} (former : Reads grammar first offset text (some result)) :
      Reads grammar (.choice first second) offset text (some result)
  | otherwise {α : Type} {offset : Nat} {text : List Char}
      {first second : Peg Category Value Fault α} {outcome : Option (Match Fault α)}
      (former : Reads grammar first offset text none)
      (latter : Reads grammar second offset text outcome) :
      Reads grammar (.choice first second) offset text outcome
  | optional {α : Type} {offset : Nat} {text : List Char} {part : Peg Category Value Fault α}
      {outcome : Option (Match Fault α)} (inner : Reads grammar part offset text outcome) :
      Reads grammar (.optional part) offset text
        (some (outcome.elim (.empty none) fun result => result.map some))
  | manyStop {α : Type} {offset : Nat} {text : List Char} {part : Peg Category Value Fault α}
      (inner : Reads grammar part offset text none) :
      Reads grammar (.many part) offset text (some (.empty []))
  | manyNext {α : Type} {offset : Nat} {text : List Char} {part : Peg Category Value Fault α}
      {first : Match Fault α} {rest : Match Fault (List α)}
      (former : Reads grammar part offset text (some first))
      (latter : Reads grammar (.many part) (offset + first.width) (text.drop first.width)
        (some rest)) :
      Reads grammar (.many part) offset text (some (first.append List.cons rest))
  | unless {offset : Nat} {text : List Char} (class_ : Terminal) :
      Reads grammar (.unless class_) offset text
        (if (class_.scan text).isSome then none else some (.empty ()))
  | located {α : Type} {offset : Nat} {text : List Char} {part : Peg Category Value Fault α}
      {outcome : Option (Match Fault α)} (inner : Reads grammar part offset text outcome) :
      Reads grammar (.located part) offset text
        (outcome.map fun result => result.map fun value => (result.extent offset, value))
  | verbatim {α : Type} {offset : Nat} {text : List Char} {part : Peg Category Value Fault α}
      {outcome : Option (Match Fault α)} (inner : Reads grammar part offset text outcome) :
      Reads grammar (.verbatim part) offset text
        (outcome.map fun result => result.map fun _ => text.take result.width)
  | check {α β : Type} {offset : Nat} {text : List Char} {part : Peg Category Value Fault α}
      {accept : α → Except Fault β} {outcome : Option (Match Fault α)}
      (inner : Reads grammar part offset text outcome) :
      Reads grammar (.check part accept) offset text
        (outcome.map fun result => ⟨result.value.bind accept, result.width, result.leaves⟩)

namespace Reads

variable {grammar : RankedGrammar Category Value Fault}

/-- What an outcome of an expression rests on: the outcomes of its parts. -/
def Premises (grammar : RankedGrammar Category Value Fault) {α : Type} :
    Peg Category Value Fault α → Nat → List Char → Option (Match Fault α) → Prop
  | .pure value, _, _, outcome => outcome = some (.empty value)
  | .terminal class_, offset, text, outcome =>
    outcome = (class_.scan text).map fun width =>
      ⟨.ok (String.ofList (text.take width)), width, .leaf class_ offset width⟩
  | .rule name, offset, text, outcome => Reads grammar (grammar.body name) offset text outcome
  | .sequence first second, offset, text, outcome =>
    (∃ left inner, Reads grammar first offset text (some left)
        ∧ Reads grammar second (offset + left.width) (text.drop left.width) inner
        ∧ outcome = inner.map fun right => left.append (fun f value => f value) right)
      ∨ Reads grammar first offset text none ∧ outcome = none
  | .choice first second, offset, text, outcome =>
    (∃ result, Reads grammar first offset text (some result) ∧ outcome = some result)
      ∨ Reads grammar first offset text none ∧ Reads grammar second offset text outcome
  | .optional part, offset, text, outcome =>
    ∃ inner, Reads grammar part offset text inner
      ∧ outcome = some (inner.elim (.empty none) fun result => result.map some)
  | .many part, offset, text, outcome =>
    Reads grammar part offset text none ∧ outcome = some (.empty [])
      ∨ ∃ first rest, Reads grammar part offset text (some first)
        ∧ Reads grammar (.many part) (offset + first.width) (text.drop first.width) (some rest)
        ∧ outcome = some (first.append List.cons rest)
  | .unless class_, _, text, outcome =>
    outcome = if (class_.scan text).isSome then none else some (.empty ())
  | .located part, offset, text, outcome =>
    ∃ inner, Reads grammar part offset text inner
      ∧ outcome = inner.map fun result => result.map fun value => (result.extent offset, value)
  | .verbatim part, offset, text, outcome =>
    ∃ inner, Reads grammar part offset text inner
      ∧ outcome = inner.map fun result => result.map fun _ => text.take result.width
  | .check part accept, offset, text, outcome =>
    ∃ inner, Reads grammar part offset text inner
      ∧ outcome = inner.map fun result => ⟨result.value.bind accept, result.width, result.leaves⟩

variable {α : Type} {part : Peg Category Value Fault α} {offset : Nat} {text : List Char}
  {outcome : Option (Match Fault α)}

theorem premises (reads : Reads grammar part offset text outcome) :
    Premises grammar part offset text outcome := by
  cases reads with
  | pure value => rfl
  | terminal class_ => rfl
  | rule inner => exact inner
  | sequence former latter => exact .inl ⟨_, _, former, latter, rfl⟩
  | sequenceFails former => exact .inr ⟨former, rfl⟩
  | choice former => exact .inl ⟨_, former, rfl⟩
  | otherwise former latter => exact .inr ⟨former, latter⟩
  | optional inner | located inner | verbatim inner | check inner => exact ⟨_, inner, rfl⟩
  | manyStop inner => exact .inl ⟨inner, rfl⟩
  | manyNext former latter => exact .inr ⟨_, _, former, latter, rfl⟩
  | «unless» class_ => rfl

/-- **An expression has at most one outcome.** -/
theorem unique (reads : Reads grammar part offset text outcome) {other : Option (Match Fault α)}
    (reads' : Reads grammar part offset text other) : outcome = other := by
  induction reads with
  | pure value | terminal class_ | «unless» class_ => exact reads'.premises.symm
  | rule inner ih => exact ih reads'.premises
  | sequence former latter ihFormer ihLatter =>
    rcases reads'.premises with ⟨left, inner, former', latter', rfl⟩ | ⟨former', rfl⟩
    · cases ihFormer former'
      rw [ihLatter latter']
    · cases ihFormer former'
  | sequenceFails former ih =>
    rcases reads'.premises with ⟨left, inner, former', latter', rfl⟩ | ⟨former', rfl⟩
    · cases ih former'
    · rfl
  | choice former ih =>
    rcases reads'.premises with ⟨result, former', rfl⟩ | ⟨former', latter'⟩
    · exact ih former'
    · cases ih former'
  | otherwise former latter ihFormer ihLatter =>
    rcases reads'.premises with ⟨result, former', rfl⟩ | ⟨former', latter'⟩
    · cases ihFormer former'
    · exact ihLatter latter'
  | optional inner ih | located inner ih | verbatim inner ih | check inner ih =>
    obtain ⟨other, inner', rfl⟩ := reads'.premises
    rw [ih inner']
  | manyStop inner ih =>
    rcases reads'.premises with ⟨inner', rfl⟩ | ⟨first, rest, former', latter', rfl⟩
    · rfl
    · cases ih former'
  | manyNext former latter ihFormer ihLatter =>
    rcases reads'.premises with ⟨inner', rfl⟩ | ⟨first, rest, former', latter', rfl⟩
    · cases ihFormer inner'
    · cases ihFormer former'
      cases ihLatter latter'
      rfl

/-! ## Widths -/

/-- **Induction on what a match covers.** What holds of no characters, of a lexeme and of parts in a
row holds of every match. -/
theorem covers_induction {motive : Nat → List Char → Nat → Leaves → Prop}
    (nothing : ∀ offset text, motive offset text 0 .nil)
    (lexeme : ∀ {class_ : Terminal} {text width} (offset), class_.scan text = some width →
      motive offset text width (.leaf class_ offset width))
    (append : ∀ {offset text width width' leaves leaves'}, motive offset text width leaves →
      motive (offset + width) (text.drop width) width' leaves' →
        motive offset text (width + width') (.append leaves leaves'))
    (reads : Reads grammar part offset text outcome) :
    ∀ result, outcome = some result → motive offset text result.width result.leaves := by
  induction reads with
  | pure value | manyStop inner ih =>
    rintro _ ⟨⟩
    exact nothing _ _
  | terminal class_ =>
    intro result found
    obtain ⟨width, scanned, rfl⟩ := Option.map_eq_some_iff.1 found
    exact lexeme _ scanned
  | rule inner ih => exact ih
  | sequence former latter ihFormer ihLatter =>
    intro result found
    obtain ⟨right, rfl, rfl⟩ := Option.map_eq_some_iff.1 found
    exact append (ihFormer _ rfl) (ihLatter right rfl)
  | sequenceFails former ih => rintro _ ⟨⟩
  | choice former ih => exact ih
  | otherwise former latter ihFormer ihLatter => exact ihLatter
  | @optional _ _ _ _ inner _ ih =>
    rintro _ ⟨⟩
    cases inner with
    | none => exact nothing _ _
    | some result => exact ih result rfl
  | manyNext former latter ihFormer ihLatter =>
    rintro _ ⟨⟩
    exact append (ihFormer _ rfl) (ihLatter _ rfl)
  | «unless» class_ =>
    intro result found
    split at found
    · cases found
    · cases found
      exact nothing _ _
  | located inner ih | verbatim inner ih | check inner ih =>
    intro result found
    obtain ⟨result', rfl, rfl⟩ := Option.map_eq_some_iff.1 found
    exact ih result' rfl

theorem width_le (reads : Reads grammar part offset text outcome) :
    ∀ result, outcome = some result → result.width ≤ text.length := by
  refine covers_induction (motive := fun _ text width _ => width ≤ text.length)
    (fun _ _ => Nat.zero_le _) (fun _ => Terminal.scan_le) ?_ reads
  intro offset text width width' _ _ former latter
  rw [List.length_drop] at latter
  omega

end Reads

/-! ## Progress -/

namespace Peg

variable {α : Type}

/-- Whether an expression might read nothing, by its form alone. Named rules are taken to read
something. -/
def nullable {α : Type} : Peg Category Value Fault α → Bool
  | .pure _ => true
  | .terminal class_ => class_.nullable
  | .rule _ => false
  | .sequence first second => first.nullable && second.nullable
  | .choice first second => first.nullable || second.nullable
  | .optional _ => true
  | .many _ => true
  | .unless _ => true
  | .located part => part.nullable
  | .verbatim part => part.nullable
  | .check part _ => part.nullable

/-- Whether every repetition in an expression repeats a part that reads something. -/
def repeatsProgress {α : Type} : Peg Category Value Fault α → Bool
  | .pure _ => true
  | .terminal _ => true
  | .rule _ => true
  | .sequence first second => first.repeatsProgress && second.repeatsProgress
  | .choice first second => first.repeatsProgress && second.repeatsProgress
  | .optional part => part.repeatsProgress
  | .many part => !part.nullable && part.repeatsProgress
  | .unless _ => true
  | .located part => part.repeatsProgress
  | .verbatim part => part.repeatsProgress
  | .check part _ => part.repeatsProgress

/-- A bound above the ranks of the rules that an expression may call at its own offset. -/
def height (rank : Category → Nat) {α : Type} : Peg Category Value Fault α → Nat
  | .pure _ => 0
  | .terminal _ => 0
  | .rule name => rank name + 1
  | .sequence first second =>
    max (first.height rank) (if first.nullable then second.height rank else 0)
  | .choice first second => max (first.height rank) (second.height rank)
  | .optional part => part.height rank
  | .many part => part.height rank
  | .unless _ => 0
  | .located part => part.height rank
  | .verbatim part => part.height rank
  | .check part _ => part.height rank

end Peg

namespace RankedGrammar

/-- The number of rules that are evaluated before a rule. -/
def rank [BEq Category] (grammar : RankedGrammar Category Value Fault) (name : Category) : Nat :=
  grammar.ranked.idxOf name

/-- Every rule and every repeated part reads something, and a rule calls only rules of lower rank
at its own offset. -/
structure Progressive [BEq Category] (grammar : RankedGrammar Category Value Fault) : Prop where
  listed : ∀ name, name ∈ grammar.ranked
  distinct : grammar.ranked.Nodup
  filled : ∀ name, (grammar.body name).nullable = false
  repeats : ∀ name, (grammar.body name).repeatsProgress = true
  climbs : ∀ name, (grammar.body name).height grammar.rank ≤ grammar.rank name

end RankedGrammar

namespace Reads

variable {grammar : RankedGrammar Category Value Fault}
  (bodies : ∀ name, (grammar.body name).nullable = false) {α : Type}
  {part : Peg Category Value Fault α} {offset : Nat} {text : List Char}
  {outcome : Option (Match Fault α)}

include bodies

theorem width_pos (reads : Reads grammar part offset text outcome) (filled : part.nullable = false) :
    ∀ result, outcome = some result → 0 < result.width := by
  induction reads with
  | pure value | optional inner | manyStop inner | manyNext former latter | «unless» class_ =>
    cases filled
  | terminal class_ =>
    intro result found
    obtain ⟨width, scanned, rfl⟩ := Option.map_eq_some_iff.1 found
    exact Terminal.scan_pos filled scanned
  | rule inner ih => exact ih (bodies _)
  | sequence former latter ihFormer ihLatter =>
    intro result found
    obtain ⟨right, rfl, rfl⟩ := Option.map_eq_some_iff.1 found
    rw [Match.width_append]
    rcases Bool.and_eq_false_iff.1 filled with first | second
    · exact Nat.add_pos_left (ihFormer first _ rfl) _
    · exact Nat.add_pos_right _ (ihLatter second right rfl)
  | sequenceFails former ih => rintro _ ⟨⟩
  | choice former ih => exact ih (Bool.or_eq_false_iff.1 filled).1
  | otherwise former latter ihFormer ihLatter => exact ihLatter (Bool.or_eq_false_iff.1 filled).2
  | located inner ih | verbatim inner ih | check inner ih =>
    intro result found
    obtain ⟨result', rfl, rfl⟩ := Option.map_eq_some_iff.1 found
    exact ih filled result' rfl

theorem nullable_of_width_eq_zero {result : Match Fault α}
    (reads : Reads grammar part offset text (some result)) (still : result.width = 0) :
    part.nullable = true := by
  cases filled : part.nullable with
  | true => rfl
  | false =>
    have taken := reads.width_pos bodies filled result rfl
    omega

theorem eq_none_of_nil (reads : Reads grammar part offset [] outcome)
    (filled : part.nullable = false) : outcome = none := by
  cases outcome with
  | none => rfl
  | some result =>
    have inside : result.width ≤ 0 := reads.width_le result rfl
    have taken := reads.width_pos bodies filled result rfl
    omega

end Reads

/-! ## Charts -/

section Charts

variable [BEq Category]

/-- A chart holds the outcomes of the rules: at its start those of rank below a bound, at every
later offset all of them. -/
structure Chart.Sound (grammar : RankedGrammar Category Value Fault) (bound : Nat)
    (chart : Chart Category Value Fault) : Prop where
  head : ∀ name, grammar.rank name < bound →
    Reads grammar (grammar.body name) chart.offset chart.text (chart.result? name)
  later : ∀ width, 0 < width → width ≤ chart.text.length → ∀ name,
    Reads grammar (grammar.body name) (chart.offset + width) (chart.text.drop width)
      ((chart.advance width).result? name)

namespace Chart.Sound

variable {grammar : RankedGrammar Category Value Fault} {chart : Chart Category Value Fault}
  {bound : Nat}

theorem advance (sound : chart.Sound grammar bound) {width : Nat} (moves : 0 < width)
    (inside : width ≤ chart.text.length) (bound' : Nat) :
    (chart.advance width).Sound grammar bound' where
  head name _ := sound.later width moves inside name
  later further _ fits name := by
    rw [Chart.advance, List.length_drop] at fits
    have there := sound.later (width + further) (by omega) (by omega) name
    simpa only [Chart.advance, List.drop_drop, Nat.add_assoc] using there

theorem advance_zero (sound : chart.Sound grammar bound) :
    (chart.advance 0).Sound grammar bound := sound

theorem iterate {α : Type} {part : Peg Category Value Fault α}
    (bodies : ∀ name, (grammar.body name).nullable = false) (filled : part.nullable = false)
    (copies : ∀ {chart : Chart Category Value Fault}, chart.Sound grammar bound →
      Reads grammar part chart.offset chart.text (part.eval chart))
    (sound : chart.Sound grammar bound) (fuel : Nat) (enough : chart.text.length ≤ fuel) :
    Reads grammar (.many part) chart.offset chart.text (some (chart.iterate part.eval fuel)) := by
  induction fuel generalizing chart with
  | zero =>
    have here := copies sound
    rw [List.length_eq_zero_iff.1 (Nat.le_zero.1 enough)] at here ⊢
    rw [here.eq_none_of_nil bodies filled] at here
    exact .manyStop here
  | succ fuel ih =>
    have here := copies sound
    rw [Chart.iterate]
    cases first : part.eval chart with
    | none =>
      rw [first] at here
      exact .manyStop here
    | some result =>
      rw [first] at here
      have taken : 0 < result.width := here.width_pos bodies filled result rfl
      simp only [Nat.ne_of_gt taken, if_false]
      have inside : result.width ≤ chart.text.length := here.width_le result rfl
      refine .manyNext here (ih (sound.advance taken inside bound) ?_)
      rw [Chart.advance, List.length_drop]
      omega

/-- **The value of an expression on a chart is its outcome**, if the chart holds the outcomes of
the rules that the expression may call. -/
theorem reads {α : Type} {part : Peg Category Value Fault α}
    (bodies : ∀ name, (grammar.body name).nullable = false)
    (progress : part.repeatsProgress = true) (low : part.height grammar.rank ≤ bound)
    (sound : chart.Sound grammar bound) :
    Reads grammar part chart.offset chart.text (part.eval chart) := by
  induction part generalizing chart bound with
  | pure value => exact .pure value
  | terminal class_ => exact .terminal class_
  | rule name => exact .rule (sound.head name low)
  | sequence first second firstIh secondIh =>
    obtain ⟨progressFirst, progressSecond⟩ := Bool.and_eq_true_iff.1 progress
    obtain ⟨lowFirst, lowSecond⟩ := Nat.max_le.1 low
    have former := firstIh progressFirst lowFirst sound
    rw [Peg.eval]
    cases left : first.eval chart with
    | none =>
      rw [left] at former
      exact .sequenceFails former
    | some result =>
      rw [left] at former
      refine .sequence former ?_
      -- Only a first part that may read nothing leaves the second one at the same offset.
      rcases Nat.eq_zero_or_pos result.width with still | moves
      · rw [if_pos (former.nullable_of_width_eq_zero bodies still)] at lowSecond
        exact secondIh progressSecond lowSecond (still ▸ sound.advance_zero)
      · have inside := former.width_le result rfl
        exact secondIh progressSecond (Nat.le_refl _) (sound.advance moves inside _)
  | choice first second firstIh secondIh =>
    obtain ⟨progressFirst, progressSecond⟩ := Bool.and_eq_true_iff.1 progress
    obtain ⟨lowFirst, lowSecond⟩ := Nat.max_le.1 low
    have former := firstIh progressFirst lowFirst sound
    rw [Peg.eval]
    cases found : first.eval chart with
    | none =>
      rw [found] at former
      exact .otherwise former (secondIh progressSecond lowSecond sound)
    | some result =>
      rw [found] at former
      exact .choice former
  | optional part ih =>
    have inner := ih progress low sound
    rw [Peg.eval]
    cases found : part.eval chart with
    | none | some result =>
      rw [found] at inner
      exact .optional inner
  | many part ih =>
    obtain ⟨filled, progress⟩ := Bool.and_eq_true_iff.1 progress
    rw [Bool.not_eq_true'] at filled
    exact sound.iterate bodies filled (ih progress low) _ (Nat.le_refl _)
  | «unless» class_ => exact .unless class_
  | located part ih => exact .located (ih progress low sound)
  | verbatim part ih => exact .verbatim (ih progress low sound)
  | check part accept ih => exact .check (ih progress low sound)

theorem cons {offset : Nat} {c : Char} {rest : List Char} {row : Row Category Value Fault}
    {rows : List (Row Category Value Fault)}
    (head : ∀ name, grammar.rank name < bound → Reads grammar (grammar.body name) offset (c :: rest)
      (Chart.result? ⟨offset, c :: rest, row :: rows⟩ name))
    (tail : ∀ bound, (⟨offset + 1, rest, rows⟩ : Chart Category Value Fault).Sound grammar bound) :
    (⟨offset, c :: rest, row :: rows⟩ : Chart Category Value Fault).Sound grammar bound where
  head := head
  later width moves inside name := by
    obtain ⟨further, rfl⟩ := Nat.exists_eq_add_of_lt moves
    rw [Nat.zero_add] at inside ⊢
    rw [List.length_cons, Nat.add_le_add_iff_right] at inside
    cases further with
    | zero => exact (tail _).head name (Nat.lt_succ_self _)
    | succ more =>
      have there := (tail 0).later (more + 1) (Nat.succ_pos more) inside name
      simpa only [Chart.advance, List.drop_succ_cons, Nat.add_assoc, Nat.add_comm 1] using there

end Chart.Sound

/-! ## Whole texts -/

namespace RankedGrammar

variable {grammar : RankedGrammar Category Value Fault}

theorem Progressive.sound_nil (progressive : grammar.Progressive) (offset bound : Nat) :
    (⟨offset, [], []⟩ : Chart Category Value Fault).Sound grammar bound := by
  have nowhere : ∀ width, 0 < width → width ≤ ([] : List Char).length → False := by
    intro width moves inside
    exact Nat.not_lt.2 inside moves
  induction bound with
  | zero =>
    exact ⟨fun name low => absurd low (Nat.not_lt_zero _),
      fun width moves inside => (nowhere width moves inside).elim⟩
  | succ bound ih =>
    refine ⟨fun name low => ?_, fun width moves inside => (nowhere width moves inside).elim⟩
    rcases Nat.lt_succ_iff_lt_or_eq.1 low with lower | rfl
    · exact ih.head name lower
    · have body := ih.reads progressive.filled (progressive.repeats name) (progressive.climbs name)
      rwa [body.eq_none_of_nil progressive.filled (progressive.filled name)] at body

variable [LawfulBEq Category]

theorem mem_of_rank_lt {done names : List Category} (split : grammar.ranked = done ++ names)
    {name : Category} (low : grammar.rank name < done.length) : name ∈ done := by
  rw [rank, split, List.idxOf_append] at low
  split at low
  · assumption
  · omega

theorem rank_eq_length {done names : List Category} {name : Category}
    (split : grammar.ranked = done ++ name :: names) (fresh : name ∉ done) :
    grammar.rank name = done.length := by
  rw [rank, split, List.idxOf_append, if_neg fresh, List.idxOf_cons_self, Nat.zero_add]

namespace Progressive

variable (progressive : grammar.Progressive)

include progressive

/-- The rules that are listed are evaluated one after the other, each on the outcomes of those
before it and of all later offsets. -/
theorem head_row {offset : Nat} {c : Char} {rest : List Char}
    {rows : List (Row Category Value Fault)}
    (tail : ∀ bound, (⟨offset + 1, rest, rows⟩ : Chart Category Value Fault).Sound grammar bound)
    (names : List Category) {done : List Category} (split : grammar.ranked = done ++ names)
    {earlier : Row Category Value Fault}
    (known : ∀ name ∈ done, Reads grammar (grammar.body name) offset (c :: rest)
      (Chart.result? ⟨offset, c :: rest, earlier :: rows⟩ name)) :
    ∀ name, Reads grammar (grammar.body name) offset (c :: rest)
      (Chart.result? ⟨offset, c :: rest, names.foldl (fun earlier name =>
        (name, Thunk.mk fun _ => (grammar.body name).eval ⟨offset, c :: rest, earlier :: rows⟩)
          :: earlier) earlier :: rows⟩ name) := by
  induction names generalizing done earlier with
  | nil =>
    intro name
    have member := progressive.listed name
    rw [split, List.append_nil] at member
    exact known name member
  | cons current later ih =>
    have fresh : current ∉ done := by
      intro member
      have distinct := progressive.distinct
      rw [split, List.nodup_append] at distinct
      exact distinct.2.2 current member current (.head _) rfl
    have sound : (⟨offset, c :: rest, earlier :: rows⟩ : Chart Category Value Fault).Sound grammar
        done.length := .cons (fun name low => known name (mem_of_rank_lt split low)) tail
    have body := sound.reads progressive.filled (progressive.repeats current)
      (rank_eq_length split fresh ▸ progressive.climbs current)
    have split' : grammar.ranked = (done ++ [current]) ++ later := by
      rw [split, List.append_assoc, List.singleton_append]
    apply ih split'
    intro name member
    rcases List.mem_append.1 member with before | here
    · have other : (name == current) = false := by
        rw [beq_eq_false_iff_ne]
        rintro rfl
        exact fresh before
      have outcome := known name before
      simp only [Chart.result?, List.lookup_cons, other] at outcome ⊢
      exact outcome
    · obtain rfl := List.mem_singleton.1 here
      simp only [Chart.result?, List.lookup_cons_self]
      exact body

theorem sound_rows (offset : Nat) (text : List Char) (bound : Nat) :
    (⟨offset, text, grammar.rows offset text⟩ : Chart Category Value Fault).Sound grammar bound := by
  induction text generalizing offset bound with
  | nil => exact progressive.sound_nil offset bound
  | cons c rest ih =>
    refine .cons (fun name _ => ?_) (ih (offset + 1))
    have none : ∀ name ∈ ([] : List Category), Reads grammar (grammar.body name) offset (c :: rest)
        (Chart.result? ⟨offset, c :: rest, [] :: grammar.rows (offset + 1) rest⟩ name) := by
      intro name member
      cases member
    exact progressive.head_row (ih (offset + 1)) grammar.ranked rfl none name

theorem sound_chart (text : List Char) {offset : Nat} (inside : offset ≤ text.length)
    (bound : Nat) : ((grammar.chart text).advance offset).Sound grammar bound := by
  have sound := progressive.sound_rows 0 text bound
  rcases Nat.eq_zero_or_pos offset with rfl | moves
  · exact sound.advance_zero
  · exact sound.advance moves inside bound

/-- **The value of an expression on the chart of a text is its outcome.** -/
theorem reads_iff {α : Type} {part : Peg Category Value Fault α}
    (progress : part.repeatsProgress = true) (text : List Char) {offset : Nat}
    (inside : offset ≤ text.length) (outcome : Option (Match Fault α)) :
    Reads grammar part offset (text.drop offset) outcome
      ↔ part.eval ((grammar.chart text).advance offset) = outcome := by
  have sound := progressive.sound_chart text inside (part.height grammar.rank)
  have reads := sound.reads progressive.filled progress (Nat.le_refl _)
  rw [show ((grammar.chart text).advance offset).offset = offset from Nat.zero_add offset] at reads
  constructor
  · exact reads.unique
  · rintro rfl
    exact reads

end Progressive

end RankedGrammar

end Charts

end TemplateLint.Grammar
