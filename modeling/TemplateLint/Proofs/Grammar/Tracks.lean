import TemplateLint.Proofs.Grammar.Reading

/-!
# Where readings lie

A cursor tells the offset that the reading of a located part has reached and where its content ends
so far. `Peg.Tracks` computes a condition under which a statement holds of the cursor after a
reading and of its value. It is sound for the readings of a grammar whose rules read at least one
character (`Reads.tracks`).
-/

namespace TemplateLint.Grammar

variable {Category Value Fault : Type}

/-! ## Cursors -/

/-- The offset that a reading has reached, and where its content ends: behind its last lexeme with
characters, or before that lexeme if it is trivia. -/
structure Cursor where
  content : Nat
  place : Nat
  ordered : content ≤ place

namespace Cursor

def ofPlace (place : Nat) : Cursor := ⟨place, place, Nat.le_refl place⟩

/-- Neither end has moved back. -/
instance : LE Cursor := ⟨fun before after =>
  before.content ≤ after.content ∧ before.place ≤ after.place⟩

theorem le_refl (cursor : Cursor) : cursor ≤ cursor := ⟨Nat.le_refl _, Nat.le_refl _⟩

theorem le_trans {first second third : Cursor} (former : first ≤ second) (latter : second ≤ third) :
    first ≤ third :=
  ⟨Nat.le_trans former.1 latter.1, Nat.le_trans former.2 latter.2⟩

end Cursor

/-! ## Conditions -/

/-- The texts that lexemes of a class can have. -/
def Terminal.Takes (class_ : Terminal) (text : String) : Prop :=
  ∃ source width, class_.scan source = some width ∧ text = String.ofList (source.take width)

namespace Peg

/-- For every reading of a source text from a cursor, `post` holds of the cursor behind it and of
its value, given what holds of the values of the named rules and of the offsets they lie between. -/
def Tracks (source : List Char) (rules : Category → Nat → Nat → Value → Prop) {α : Type} :
    Peg Category Value Fault α → Cursor → (Cursor → α → Prop) → Prop
  | .pure value, cursor, post => post cursor value
  | .terminal class_, cursor, post => ∀ after, cursor ≤ after →
    class_.scan (source.drop cursor.place) = some (after.place - cursor.place) →
    (class_.nullable = false → cursor.place < after.place ∧ after.content = after.place) →
    ∀ text, class_.Takes text → post after text
  | .rule name, cursor, post => ∀ after, cursor ≤ after → cursor.place < after.content →
    ∀ value, rules name cursor.place after.content value → post after value
  | .sequence first second, cursor, post =>
    first.Tracks source rules cursor fun middle f =>
      second.Tracks source rules middle fun after value => post after (f value)
  | .choice first second, cursor, post =>
    first.Tracks source rules cursor post ∧ second.Tracks source rules cursor post
  | .optional part, cursor, post =>
    post cursor none ∧ part.Tracks source rules cursor fun after value => post after (some value)
  | .many part, cursor, post =>
    ∃ invariant : Cursor → List _ → Prop, invariant cursor []
      ∧ (∀ middle values, invariant middle values →
          part.Tracks source rules middle fun after value => invariant after (values ++ [value]))
      ∧ ∀ after values, invariant after values → post after values
  | .unless _, cursor, post => post cursor ()
  | .located part, cursor, post =>
    part.Tracks source rules (.ofPlace cursor.place) fun inner value => ∀ after, cursor ≤ after →
      after.place = inner.place → (part.nullable = false → after.content = inner.content) →
      post after (⟨cursor.place, inner.content, inner.place⟩, value)
  | .verbatim part, cursor, post =>
    part.Tracks source rules cursor fun after _ => ∀ text, post after text
  | .check part accept, cursor, post =>
    part.Tracks source rules cursor fun after value => ∀ result, accept value = .ok result →
      post after result

theorem Tracks.mono {source : List Char} {rules : Category → Nat → Nat → Value → Prop} {α : Type}
    {part : Peg Category Value Fault α} {cursor : Cursor} {post weaker : Cursor → α → Prop}
    (tracked : part.Tracks source rules cursor post)
    (follows : ∀ after value, post after value → weaker after value) :
    part.Tracks source rules cursor weaker := by
  induction part generalizing cursor with
  | pure value => exact follows cursor value tracked
  | terminal class_ =>
    intro after moved scanned token text taken
    exact follows after text (tracked after moved scanned token text taken)
  | rule name =>
    intro after moved filled value holds
    exact follows after value (tracked after moved filled value holds)
  | sequence first second firstIh secondIh =>
    apply firstIh tracked
    intro middle f rest
    apply secondIh rest
    intro after value
    exact follows after (f value)
  | choice first second firstIh secondIh =>
    exact ⟨firstIh tracked.1 follows, secondIh tracked.2 follows⟩
  | optional part ih =>
    refine ⟨follows cursor none tracked.1, ih tracked.2 ?_⟩
    intro after value
    exact follows after (some value)
  | many part ih =>
    obtain ⟨invariant, holds, copy, whole⟩ := tracked
    refine ⟨invariant, holds, copy, ?_⟩
    intro after values kept
    exact follows after values (whole after values kept)
  | «unless» class_ => exact follows cursor () tracked
  | located part ih =>
    apply ih tracked
    intro inner value rest after moved reached ends
    exact follows after _ (rest after moved reached ends)
  | verbatim part ih =>
    apply ih tracked
    intro after value all text
    exact follows after text (all text)
  | check part accept ih =>
    apply ih tracked
    intro after value all result accepted
    exact follows after result (all result accepted)

end Peg

/-! ## The content of a match -/

/-- Lexemes that cover some characters have their content there, and without content there are
none. -/
def Leaves.Lie (offset width : Nat) (leaves : Leaves) : Prop :=
  (∀ content, leaves.contentStop? = some content → offset ≤ content ∧ content ≤ offset + width)
    ∧ (leaves.contentStop? = none → width = 0)

theorem Leaves.Lie.append {offset width width' : Nat} {leaves leaves' : Leaves}
    (former : leaves.Lie offset width) (latter : leaves'.Lie (offset + width) width') :
    (Leaves.append leaves leaves').Lie offset (width + width') := by
  rw [Leaves.Lie, Leaves.contentStop?]
  cases behind : leaves'.contentStop? with
  | some content =>
    have bounds := latter.1 content behind
    constructor
    · rintro _ ⟨⟩
      omega
    · rintro ⟨⟩
  | none =>
    have still := latter.2 behind
    constructor
    · intro content found
      have bounds := former.1 content found
      omega
    · intro none
      have nothing := former.2 none
      omega

namespace Reads

variable {grammar : RankedGrammar Category Value Fault} {α : Type}
  {part : Peg Category Value Fault α} {offset : Nat} {text : List Char}
  {outcome : Option (Match Fault α)}

theorem lies (reads : Reads grammar part offset text outcome) :
    ∀ result, outcome = some result → result.leaves.Lie offset result.width := by
  refine covers_induction (motive := fun offset _ width leaves => leaves.Lie offset width) ?_ ?_
    (fun former latter => former.append latter) reads
  · exact fun _ _ => ⟨nofun, fun _ => rfl⟩
  · intro class_ text width offset _
    simp only [Leaves.Lie, Leaves.contentStop?]
    split
    · simp_all
    · split <;> simp

theorem exists_content (bodies : ∀ name, (grammar.body name).nullable = false)
    (reads : Reads grammar part offset text outcome) (filled : part.nullable = false) :
    ∀ result, outcome = some result →
      ∃ content, result.leaves.contentStop? = some content ∧ offset < content := by
  induction reads with
  | pure value | optional inner | manyStop inner | manyNext former latter | «unless» class_ =>
    cases filled
  | terminal class_ =>
    intro result found
    obtain ⟨width, scanned, rfl⟩ := Option.map_eq_some_iff.1 found
    have taken := Terminal.scan_pos filled scanned
    have token : class_ ≠ .trivia := by
      rintro rfl
      cases filled
    simp only [Leaves.contentStop?, if_neg (Nat.ne_of_gt taken), if_neg token]
    exact ⟨_, rfl, Nat.lt_add_of_pos_right taken⟩
  | rule inner ih => exact ih (bodies _)
  | @sequence _ _ offset _ first second left _ former latter ihFormer ihLatter =>
    intro result found
    obtain ⟨right, rfl, rfl⟩ := Option.map_eq_some_iff.1 found
    have leaves : (left.append (fun f value => f value) right).leaves.contentStop?
      = (right.leaves.contentStop? <|> left.leaves.contentStop?) := rfl
    rw [leaves]
    rcases Bool.and_eq_false_iff.1 filled with filledFirst | filledSecond
    · obtain ⟨content, ends, inside⟩ := ihFormer filledFirst _ rfl
      cases behind : right.leaves.contentStop? with
      | none => exact ⟨content, ends, inside⟩
      | some content' =>
        have upper := (former.lies _ rfl).1 content ends
        have lower := (latter.lies _ rfl).1 content' behind
        exact ⟨content', rfl, by omega⟩
    · obtain ⟨content, ends, inside⟩ := ihLatter filledSecond right rfl
      rw [ends]
      exact ⟨content, rfl, by omega⟩
  | sequenceFails former ih => rintro _ ⟨⟩
  | choice former ih => exact ih (Bool.or_eq_false_iff.1 filled).1
  | otherwise former latter ihFormer ihLatter => exact ihLatter (Bool.or_eq_false_iff.1 filled).2
  | located inner ih | verbatim inner ih | check inner ih =>
    intro result found
    obtain ⟨result', rfl, rfl⟩ := Option.map_eq_some_iff.1 found
    exact ih filled result' rfl

end Reads

/-! ## Values of matches -/

namespace Match

variable {α β γ : Type}

theorem eq_ok_of_map_eq_ok {f : α → β} {result : Except Fault α} {value : β}
    (accepted : result.map f = .ok value) : ∃ inner, result = .ok inner ∧ f inner = value := by
  cases result with
  | error fault => cases accepted
  | ok found =>
    cases accepted
    exact ⟨found, rfl, rfl⟩

theorem map_eq_of_mapM_eq_ok {f : α → Except Fault β} {view : α → γ} {view' : β → γ}
    (each : ∀ a b, f a = .ok b → view' b = view a) {parts : List α} {values : List β}
    (accepted : parts.mapM f = .ok values) : values.map view' = parts.map view := by
  induction parts generalizing values with
  | nil =>
    cases accepted
    rfl
  | cons part rest ih =>
    rw [List.mapM_cons] at accepted
    cases first : f part with
    | error => rw [first] at accepted; cases accepted
    | ok value =>
      cases others : rest.mapM f with
      | error => rw [first, others] at accepted; cases accepted
      | ok later =>
        rw [first, others] at accepted
        cases accepted
        rw [List.map_cons, List.map_cons, each part value first, ih others]

theorem value_map_eq_ok {f : α → β} {result : Match Fault α} {value : β}
    (accepted : (result.map f).value = .ok value) :
    ∃ inner, result.value = .ok inner ∧ f inner = value :=
  eq_ok_of_map_eq_ok accepted

theorem value_append_eq_ok {f : α → β → γ} {first : Match Fault α} {second : Match Fault β}
    {value : γ} (accepted : (first.append f second).value = .ok value) :
    ∃ left right, first.value = .ok left ∧ second.value = .ok right ∧ f left right = value := by
  simp only [Match.append] at accepted
  cases left : first.value with
  | error fault =>
    rw [left] at accepted
    cases accepted
  | ok found =>
    cases right : second.value with
    | error fault =>
      rw [left, right] at accepted
      cases accepted
    | ok found' =>
      rw [left, right] at accepted
      cases accepted
      exact ⟨found, found', rfl, rfl, rfl⟩

end Match

/-! ## Soundness -/

/-- The cursor after a match, for the cursor before it. -/
structure Cursor.Follows {α : Type} (before : Cursor) (result : Match Fault α) (after : Cursor) :
    Prop where
  moved : before ≤ after
  place : after.place = before.place + result.width
  content : after.content = result.leaves.contentStop?.getD before.content

theorem Leaves.Lie.exists_follows {α : Type} {result : Match Fault α} {cursor : Cursor}
    (lies : result.leaves.Lie cursor.place result.width) : ∃ after, cursor.Follows result after := by
  have bounds : cursor.content ≤ result.leaves.contentStop?.getD cursor.content
      ∧ result.leaves.contentStop?.getD cursor.content ≤ cursor.place + result.width := by
    have ordered := cursor.ordered
    cases found : result.leaves.contentStop? with
    | none =>
      rw [Option.getD_none]
      omega
    | some content =>
      have inside := lies.1 content found
      rw [Option.getD_some]
      omega
  exact ⟨⟨_, _, bounds.2⟩, ⟨bounds.1, Nat.le_add_right _ _⟩, rfl, rfl⟩

namespace Cursor.Follows

variable {α β γ : Type} {before middle after : Cursor}

theorem empty (cursor : Cursor) (value : α) :
    cursor.Follows (.empty value : Match Fault α) cursor where
  moved := cursor.le_refl
  place := rfl
  content := rfl

theorem append {first : Match Fault α} {second : Match Fault β}
    (former : before.Follows first middle) (latter : middle.Follows second after)
    (f : α → β → γ) : before.Follows (first.append f second) after where
  moved := le_trans former.moved latter.moved
  place := by
    rw [latter.place, former.place, Match.width_append, Nat.add_assoc]
  content := by
    have leaves : (first.append f second).leaves.contentStop?
        = (second.leaves.contentStop? <|> first.leaves.contentStop?) := rfl
    rw [latter.content, former.content, leaves]
    cases second.leaves.contentStop? <;> rfl

theorem of_eq {first : Match Fault α} {second : Match Fault β}
    (follows : before.Follows first after) (width : second.width = first.width)
    (leaves : second.leaves = first.leaves) : before.Follows second after :=
  ⟨follows.moved, width ▸ follows.place, leaves ▸ follows.content⟩

theorem extent {offset : Nat} {result : Match Fault α} (lies : result.leaves.Lie offset result.width)
    (follows : (ofPlace offset).Follows result after) :
    result.extent offset = ⟨offset, after.content, after.place⟩ := by
  have content : result.leaves.contentStop?.getD (offset + result.width) = after.content := by
    rw [follows.content]
    cases found : result.leaves.contentStop? with
    | none =>
      have still := lies.2 found
      simp [still, ofPlace]
    | some content => rfl
  rw [Match.extent, content, follows.place]
  rfl

end Cursor.Follows

/-- **Soundness.** What is tracked holds of every reading of a grammar, if the bodies of the rules
satisfy what is assumed of the rules. -/
theorem Reads.tracks {grammar : RankedGrammar Category Value Fault} {source : List Char}
    {rules : Category → Nat → Nat → Value → Prop}
    (bodies : ∀ name, (grammar.body name).nullable = false)
    (assumed : ∀ name cursor, (grammar.body name).Tracks source rules cursor fun after value =>
      rules name cursor.place after.content value)
    {α : Type} {part : Peg Category Value Fault α} {offset : Nat} {text : List Char}
    {outcome : Option (Match Fault α)} (reads : Reads grammar part offset text outcome) :
    ∀ (result : Match Fault α) (value : α) (cursor : Cursor) (post : Cursor → α → Prop),
      outcome = some result → result.value = .ok value → cursor.place = offset →
      text = source.drop cursor.place → part.Tracks source rules cursor post →
      ∃ after, cursor.Follows result after ∧ post after value := by
  induction reads with
  | pure value =>
    rintro _ _ cursor post ⟨⟩ ⟨⟩ rfl _ tracked
    exact ⟨cursor, .empty cursor value, tracked⟩
  | @terminal _ text class_ =>
    rintro result value cursor post found accepted rfl rest tracked
    have reads : Reads grammar (.terminal class_) cursor.place text _ := .terminal class_
    obtain ⟨after, follows⟩ := (reads.lies result found).exists_follows
    obtain ⟨width, scanned, rfl⟩ := Option.map_eq_some_iff.1 found
    have place : after.place = cursor.place + width := follows.place
    have takes : class_.Takes value := by
      cases accepted
      exact ⟨text, width, scanned, rfl⟩
    refine ⟨after, follows, tracked after follows.moved ?_ ?_ value takes⟩
    · rw [← rest, scanned, place, Nat.add_sub_cancel_left]
    intro filled
    have taken := Terminal.scan_pos filled scanned
    have token : class_ ≠ .trivia := by
      rintro rfl
      cases filled
    have content : after.content = cursor.place + width := by
      rw [follows.content, Leaves.contentStop?, if_neg (Nat.ne_of_gt taken), if_neg token]
      rfl
    omega
  | @rule _ _ name outcome inner ih =>
    rintro result value cursor post found accepted rfl rest tracked
    obtain ⟨after, follows, holds⟩ :=
      ih result value cursor _ found accepted rfl rest (assumed name cursor)
    refine ⟨after, follows, tracked after follows.moved ?_ value holds⟩
    obtain ⟨content, ends, filled⟩ := inner.exists_content bodies (bodies name) result found
    rw [follows.content, ends]
    exact filled
  | @sequence _ _ _ text _ _ left _ former latter ihFormer ihLatter =>
    rintro result value cursor post found accepted rfl rest tracked
    obtain ⟨right, rfl, rfl⟩ := Option.map_eq_some_iff.1 found
    obtain ⟨f, inner, acceptedLeft, acceptedRight, rfl⟩ := Match.value_append_eq_ok accepted
    obtain ⟨middle, followsLeft, further⟩ :=
      ihFormer _ f cursor _ rfl acceptedLeft rfl rest tracked
    have behind : text.drop left.width = source.drop middle.place := by
      rw [rest, List.drop_drop, followsLeft.place]
    obtain ⟨after, followsRight, holds⟩ :=
      ihLatter right inner middle _ rfl acceptedRight followsLeft.place behind further
    exact ⟨after, followsLeft.append followsRight _, holds⟩
  | sequenceFails former ih => rintro _ _ _ _ ⟨⟩
  | choice former ih =>
    rintro result value cursor post found accepted place rest tracked
    exact ih result value cursor post found accepted place rest tracked.1
  | otherwise former latter ihFormer ihLatter =>
    rintro result value cursor post found accepted place rest tracked
    exact ihLatter result value cursor post found accepted place rest tracked.2
  | @optional _ _ _ _ inner _ ih =>
    rintro result value cursor post ⟨⟩ accepted place rest tracked
    cases inner with
    | none =>
      cases accepted
      exact ⟨cursor, .empty cursor none, tracked.1⟩
    | some result =>
      obtain ⟨inner, acceptedPart, rfl⟩ := Match.value_map_eq_ok accepted
      obtain ⟨after, follows, holds⟩ :=
        ih result inner cursor _ rfl acceptedPart place rest tracked.2
      exact ⟨after, follows.of_eq rfl rfl, holds⟩
  | manyStop inner ih =>
    rintro _ _ cursor post ⟨⟩ ⟨⟩ place _ ⟨invariant, holds, copy, whole⟩
    exact ⟨cursor, .empty cursor [], whole cursor [] holds⟩
  | @manyNext _ _ text _ first _ former latter ihFormer ihLatter =>
    rintro result value cursor post ⟨⟩ accepted rfl rest ⟨invariant, holds, copy, whole⟩
    obtain ⟨head, tail, acceptedHead, acceptedTail, rfl⟩ := Match.value_append_eq_ok accepted
    obtain ⟨middle, followsHead, kept⟩ :=
      ihFormer _ head cursor _ rfl acceptedHead rfl rest (copy cursor [] holds)
    have behind : text.drop first.width = source.drop middle.place := by
      rw [rest, List.drop_drop, followsHead.place]
    -- The copies behind the first one keep the invariant with the first one put before them.
    obtain ⟨after, followsTail, end_⟩ := ihLatter _ tail middle
      (fun after values => post after (head :: values)) rfl acceptedTail followsHead.place behind
      ⟨fun after values => invariant after (head :: values), kept,
        fun middle values => copy middle (head :: values),
        fun after values => whole after (head :: values)⟩
    exact ⟨after, followsHead.append followsTail _, end_⟩
  | «unless» class_ =>
    rintro result value cursor post found accepted place rest tracked
    split at found
    · cases found
    · cases found
      cases accepted
      exact ⟨cursor, .empty cursor (), tracked⟩
  | located inner ih =>
    rintro result value cursor post found accepted rfl rest tracked
    obtain ⟨result', rfl, rfl⟩ := Option.map_eq_some_iff.1 found
    obtain ⟨value', acceptedPart, rfl⟩ := Match.value_map_eq_ok accepted
    obtain ⟨within, followsInner, further⟩ :=
      ih result' value' (.ofPlace cursor.place) _ rfl acceptedPart rfl rest tracked
    have lies := inner.lies result' rfl
    obtain ⟨after, follows⟩ := lies.exists_follows
    refine ⟨after, follows.of_eq rfl rfl, ?_⟩
    rw [followsInner.extent lies]
    apply further after follows.moved
    · rw [follows.place, followsInner.place]
      rfl
    · intro filled
      obtain ⟨content, ends, _⟩ := inner.exists_content bodies filled result' rfl
      rw [follows.content, followsInner.content, ends]
      rfl
  | verbatim inner ih =>
    rintro result value cursor post found accepted place rest tracked
    obtain ⟨result', rfl, rfl⟩ := Option.map_eq_some_iff.1 found
    obtain ⟨value', acceptedPart, rfl⟩ := Match.value_map_eq_ok accepted
    obtain ⟨after, follows, holds⟩ := ih result' value' cursor _ rfl acceptedPart place rest tracked
    exact ⟨after, follows.of_eq rfl rfl, holds _⟩
  | check inner ih =>
    rintro result value cursor post found accepted place rest tracked
    obtain ⟨result', rfl, rfl⟩ := Option.map_eq_some_iff.1 found
    simp only at accepted
    cases before : result'.value with
    | error fault =>
      rw [before] at accepted
      cases accepted
    | ok value' =>
      rw [before] at accepted
      obtain ⟨after, follows, holds⟩ := ih result' value' cursor _ rfl before place rest tracked
      exact ⟨after, follows.of_eq rfl rfl, holds value accepted⟩

end TemplateLint.Grammar
