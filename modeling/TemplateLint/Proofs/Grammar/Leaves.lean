import TemplateLint.Proofs.Grammar.Progress

/-!
# The lexemes of a reading

The lexemes of a reading follow one another from where it starts to where it ends (`Reads.tiles`).
Of which classes they are (`Peg.readsOnly`), and whether lexemes of a kind come in pairs
(`Peg.parity?`), can be computed from the grammar.
-/

namespace TemplateLint.Grammar

variable {Category Value Fault : Type}

/-! ## Lexemes in a row -/

/-- Lexemes that follow one another in a text, from one offset to another. -/
inductive Tiles (source : List Char) : Nat → List (Terminal × Nat × Nat) → Nat → Prop where
  | nil (offset : Nat) : Tiles source offset [] offset
  | cons {class_ : Terminal} {offset width stop : Nat} {rest : List (Terminal × Nat × Nat)}
      (scanned : class_.scan (source.drop offset) = some width)
      (later : Tiles source (offset + width) rest stop) :
      Tiles source offset ((class_, offset, width) :: rest) stop

theorem Tiles.append {source : List Char} {start middle stop : Nat}
    {left right : List (Terminal × Nat × Nat)} (former : Tiles source start left middle)
    (latter : Tiles source middle right stop) : Tiles source start (left ++ right) stop := by
  induction former with
  | nil offset => exact latter
  | cons scanned _ ih => exact .cons scanned (ih latter)

section Reads

variable {grammar : RankedGrammar Category Value Fault} {α : Type}
  {part : Peg Category Value Fault α} {offset : Nat} {text : List Char}
  {outcome : Option (Match Fault α)}

/-- **The lexemes of a reading tile the text that is read.** -/
theorem Reads.tiles (reads : Reads grammar part offset text outcome) :
    ∀ (result : Match Fault α) (source : List Char), outcome = some result →
      text = source.drop offset →
      Tiles source offset result.leaves.toList (offset + result.width) := by
  have covered := covers_induction (motive := fun offset text width leaves => ∀ source,
    text = List.drop offset source → Tiles source offset leaves.toList (offset + width))
    ?_ ?_ ?_ reads
  · exact fun result source found => covered result found source
  · exact fun offset _ _ _ => .nil offset
  · rintro class_ _ width offset scanned source rfl
    exact .cons scanned (.nil _)
  · rintro offset _ width width' _ _ former latter source rfl
    have behind := latter source (by rw [List.drop_drop])
    rw [Nat.add_assoc] at behind
    exact (former source rfl).append behind

/-! ## Classes -/

/-- Whether all lexemes that an expression reads are of some kind, apart from those of the rules it
refers to. -/
def Peg.readsOnly (kind : Terminal → Bool) {α : Type} : Peg Category Value Fault α → Bool
  | .pure _ => true
  | .terminal class_ => kind class_
  | .rule _ => true
  | .sequence first second => first.readsOnly kind && second.readsOnly kind
  | .choice first second => first.readsOnly kind && second.readsOnly kind
  | .optional part => part.readsOnly kind
  | .many part => part.readsOnly kind
  | .unless _ => true
  | .located part => part.readsOnly kind
  | .verbatim part => part.readsOnly kind
  | .check part _ => part.readsOnly kind

theorem Reads.readsOnly {kind : Terminal → Bool}
    (bodies : ∀ name, (grammar.body name).readsOnly kind = true)
    (reads : Reads grammar part offset text outcome) (only : part.readsOnly kind = true) :
    ∀ result, outcome = some result → ∀ leaf ∈ result.leaves.toList, kind leaf.1 = true := by
  induction reads with
  | pure value | manyStop inner ih =>
    rintro _ ⟨⟩ leaf member
    cases member
  | terminal class_ =>
    rintro result found leaf member
    obtain ⟨width, scanned, rfl⟩ := Option.map_eq_some_iff.1 found
    rw [List.mem_singleton.1 member]
    exact only
  | rule inner ih => exact ih (bodies _)
  | sequence former latter ihFormer ihLatter =>
    rintro result found leaf member
    obtain ⟨onlyFormer, onlyLatter⟩ := Bool.and_eq_true_iff.1 only
    obtain ⟨right, rfl, rfl⟩ := Option.map_eq_some_iff.1 found
    rcases List.mem_append.1 member with left | right
    · exact ihFormer onlyFormer _ rfl leaf left
    · exact ihLatter onlyLatter _ rfl leaf right
  | sequenceFails former ih => rintro _ ⟨⟩
  | choice former ih => exact ih (Bool.and_eq_true_iff.1 only).1
  | otherwise former latter ihFormer ihLatter => exact ihLatter (Bool.and_eq_true_iff.1 only).2
  | @optional _ _ _ _ inner _ ih =>
    rintro _ ⟨⟩ leaf member
    cases inner with
    | none => cases member
    | some result => exact ih only result rfl leaf member
  | manyNext former latter ihFormer ihLatter =>
    rintro _ ⟨⟩ leaf member
    rcases List.mem_append.1 member with first | rest
    · exact ihFormer only _ rfl leaf first
    · exact ihLatter only _ rfl leaf rest
  | «unless» class_ =>
    rintro result found leaf member
    split at found
    · cases found
    · cases found
      cases member
  | located inner ih | verbatim inner ih | check inner ih =>
    rintro result found leaf member
    obtain ⟨result', rfl, rfl⟩ := Option.map_eq_some_iff.1 found
    exact ih only result' rfl leaf member

/-! ## Pairs -/

/-- Whether an odd number of lexemes of a kind stands in a row, or an even number if one more stands
before it. -/
def oddAfter (counted : Terminal → Bool) (odd : Bool) (leaves : List (Terminal × Nat × Nat)) :
    Bool :=
  leaves.foldl (fun odd leaf => odd ^^ counted leaf.1) odd

theorem oddAfter_append (counted : Terminal → Bool) (odd : Bool)
    (left right : List (Terminal × Nat × Nat)) :
    oddAfter counted odd (left ++ right) = oddAfter counted (oddAfter counted odd left) right :=
  List.foldl_append

/-- Whether an expression reads an odd number of lexemes of a kind, if that does not depend on what
it reads. Rules are taken to read an even number. -/
def Peg.parity? (counted : Terminal → Bool) {α : Type} : Peg Category Value Fault α → Option Bool
  | .pure _ => some false
  | .terminal class_ => some (counted class_)
  | .rule _ => some false
  | .sequence first second =>
    match first.parity? counted, second.parity? counted with
    | some left, some right => some (left ^^ right)
    | _, _ => none
  | .choice first second =>
    if first.parity? counted = second.parity? counted then first.parity? counted else none
  | .optional part => if part.parity? counted = some false then some false else none
  | .many part => if part.parity? counted = some false then some false else none
  | .unless _ => some false
  | .located part => part.parity? counted
  | .verbatim part => part.parity? counted
  | .check part _ => part.parity? counted

theorem Reads.parity {counted : Terminal → Bool}
    (bodies : ∀ name, (grammar.body name).parity? counted = some false)
    (reads : Reads grammar part offset text outcome) :
    ∀ (result : Match Fault α) (known before : Bool), outcome = some result →
      part.parity? counted = some known →
      oddAfter counted before result.leaves.toList = (before ^^ known) := by
  induction reads with
  | pure value =>
    rintro _ _ before ⟨⟩ ⟨⟩
    exact (Bool.xor_false before).symm
  | terminal class_ =>
    rintro result _ before found ⟨⟩
    obtain ⟨width, scanned, rfl⟩ := Option.map_eq_some_iff.1 found
    rfl
  | @rule _ _ name _ inner ih =>
    rintro result _ before found ⟨⟩
    exact ih result false before found (bodies name)
  | @sequence _ _ _ _ first second left _ former latter ihFormer ihLatter =>
    rintro result known before found even
    obtain ⟨right, rfl, rfl⟩ := Option.map_eq_some_iff.1 found
    rw [Peg.parity?] at even
    split at even
    -- the parities of both parts are known, and they add up
    · rename_i knownLeft knownRight evenFirst evenSecond
      cases even
      calc oddAfter counted before (left.leaves.toList ++ right.leaves.toList)
          = oddAfter counted (before ^^ knownLeft) right.leaves.toList := by
            rw [oddAfter_append, ihFormer left knownLeft before rfl evenFirst]
        _ = (before ^^ knownLeft ^^ knownRight) := ihLatter right knownRight _ rfl evenSecond
        _ = (before ^^ (knownLeft ^^ knownRight)) := Bool.xor_assoc ..
    · cases even
  | sequenceFails former ih => rintro _ _ _ ⟨⟩
  | @choice _ _ _ first second _ former ih =>
    rintro result known before found even
    rw [Peg.parity?] at even
    split at even
    · exact ih result known before found even
    · cases even
  | @otherwise _ _ _ first second _ former latter ihFormer ihLatter =>
    rintro result known before found even
    rw [Peg.parity?] at even
    split at even
    · rename_i same
      -- both alternatives have the same parity
      exact ihLatter result known before found (same ▸ even)
    · cases even
  | @optional _ _ _ _ inner _ ih =>
    rintro _ known before ⟨⟩ even
    rw [Peg.parity?] at even
    split at even
    · rename_i evenPart
      cases even
      cases inner with
      | none => exact (Bool.xor_false before).symm
      | some result => exact ih result false before rfl evenPart
    · cases even
  | manyStop inner ih =>
    rintro _ known before ⟨⟩ even
    rw [Peg.parity?] at even
    split at even
    · cases even
      exact (Bool.xor_false before).symm
    · cases even
  | @manyNext _ _ _ part first rest former latter ihFormer ihLatter =>
    rintro _ known before ⟨⟩ even
    -- each copy is even, so the number of copies does not matter
    have evenRest := fun before => ihLatter rest known before rfl even
    rw [Peg.parity?] at even
    split at even
    · rename_i evenPart
      calc oddAfter counted before (first.leaves.toList ++ rest.leaves.toList)
          = oddAfter counted (before ^^ false) rest.leaves.toList := by
            rw [oddAfter_append, ihFormer first false before rfl evenPart]
        _ = (before ^^ known) := by rw [Bool.xor_false, evenRest]
    · cases even
  | «unless» class_ =>
    rintro result _ before found ⟨⟩
    split at found
    · cases found
    · cases found
      exact (Bool.xor_false before).symm
  | located inner ih | verbatim inner ih | check inner ih =>
    rintro result known before found even
    obtain ⟨result', rfl, rfl⟩ := Option.map_eq_some_iff.1 found
    exact ih result' known before rfl even

end Reads

end TemplateLint.Grammar
