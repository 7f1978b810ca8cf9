import Mathlib.Data.List.Forall2
import TemplateLint.Proofs.Grammar.Progress
import TemplateLint.Text.Blank

/-!
# Reading a text with other trivia in one place

Two texts that differ in the trivia at one place are read alike, but for offsets, if every lexeme
that is tried before the place is the same in both texts and ends before the place, and no text that
is kept as it is written holds the place (`Replacement.Unseen`). `Peg.Moves` computes a condition
under which the values of two such readings are related, and the condition is sound
(`Reads.moved`).
-/

namespace TemplateLint.Grammar

open TemplateLint.Text

variable {Category Value Fault : Type}

/-! ## Replacements -/

/-- Two texts that differ in one place. -/
structure Replacement where
  before : List Char
  old : List Char
  new : List Char
  behind : List Char

namespace Replacement

variable (swap : Replacement)

/-- The text before the replacement. -/
def source : List Char := swap.before ++ (swap.old ++ swap.behind)

/-- The text after the replacement. -/
def target : List Char := swap.before ++ (swap.new ++ swap.behind)

def place : Nat := swap.before.length

/-- Where an offset of the source is in the target. -/
def move (offset : Nat) : Nat :=
  if offset ≤ swap.place then offset else offset + swap.new.length - swap.old.length

/-- An offset that is not inside the text that is replaced. -/
def Outside (offset : Nat) : Prop := offset ≤ swap.place ∨ swap.place + swap.old.length ≤ offset

/-- Both parts are trivia that is read to its end. -/
structure IsTrivia : Prop where
  old : swap.old ≠ []
  new : swap.new ≠ []
  scanOld : Terminal.trivia.scan (swap.old ++ swap.behind) = some swap.old.length
  scanNew : Terminal.trivia.scan (swap.new ++ swap.behind) = some swap.new.length

/-- An expression is called while the source is read. -/
def Calls (grammar : RankedGrammar Category Value Fault) {α : Type}
    (start : Peg Category Value Fault α) (call : Call Category Value Fault) : Prop :=
  Relation.ReflTransGen (Invokes grammar swap.source) ⟨start, 0⟩ call

/-- Reading the source does not show what stands at the place, other than trivia. -/
structure Unseen (grammar : RankedGrammar Category Value Fault) {α : Type}
    (start : Peg Category Value Fault α) : Prop where
  /-- A lexeme that is tried before the place, or other than trivia at the place, is the same in
  both texts and ends at the place at the latest. -/
  lexeme : ∀ class_ offset, swap.Calls grammar start ⟨.terminal class_, offset⟩ →
    offset ≤ swap.place → (class_ = .trivia → offset < swap.place) →
      class_.scan (swap.target.drop offset) = class_.scan (swap.source.drop offset)
        ∧ ∀ width, class_.scan (swap.source.drop offset) = some width → offset + width ≤ swap.place
  /-- A lexeme that must not come next comes in both texts or in neither. -/
  guard : ∀ class_ offset, swap.Calls grammar start ⟨.unless class_, offset⟩ →
    offset ≤ swap.place →
      (class_.scan (swap.target.drop offset)).isSome = (class_.scan (swap.source.drop offset)).isSome
  /-- A text that is kept as it is written is the same, but for blanks at its ends. -/
  kept : ∀ {β : Type} (part : Peg Category Value Fault β) offset result,
    swap.Calls grammar start ⟨.verbatim part, offset⟩ → offset ≤ swap.place →
      Reads grammar part offset (swap.source.drop offset) (some result) →
      trim ((swap.target.drop offset).take (swap.move (offset + result.width) - offset))
        = trim ((swap.source.drop offset).take result.width)

variable {swap} {offset width : Nat}

theorem move_of_le (before : offset ≤ swap.place) : swap.move offset = offset := if_pos before

theorem move_add (trivia : swap.IsTrivia) (behind : swap.place + swap.old.length ≤ offset) :
    swap.move (offset + width) = swap.move offset + width := by
  have filled := List.length_pos_of_ne_nil trivia.old
  rw [move, move, if_neg (by omega), if_neg (by omega)]
  omega

theorem move_behind (trivia : swap.IsTrivia) :
    swap.move (swap.place + swap.old.length) = swap.place + swap.new.length := by
  have filled := List.length_pos_of_ne_nil trivia.old
  rw [move, if_neg (by omega)]
  omega

theorem drop_source : swap.source.drop swap.place = swap.old ++ swap.behind := List.drop_left

theorem drop_target : swap.target.drop swap.place = swap.new ++ swap.behind := List.drop_left

theorem drop_target_move (trivia : swap.IsTrivia) (behind : swap.place + swap.old.length ≤ offset) :
    swap.target.drop (swap.move offset) = swap.source.drop offset := by
  obtain ⟨further, rfl⟩ := Nat.exists_eq_add_of_le behind
  rw [move_add trivia (Nat.le_refl _), move_behind trivia]
  rw [← List.drop_drop, ← List.drop_drop, drop_target, List.drop_left]
  rw [← List.drop_drop, ← List.drop_drop, drop_source, List.drop_left]

theorem length_source :
    swap.source.length = swap.place + swap.old.length + swap.behind.length := by
  rw [source, List.length_append, List.length_append, Nat.add_assoc, place]

theorem length_target :
    swap.target.length = swap.place + swap.new.length + swap.behind.length := by
  rw [target, List.length_append, List.length_append, Nat.add_assoc, place]

theorem move_length (trivia : swap.IsTrivia) :
    swap.move swap.source.length = swap.target.length := by
  rw [length_source, move_add trivia (Nat.le_refl _), move_behind trivia, length_target]

theorem move_lt_length_iff (trivia : swap.IsTrivia) (outside : swap.Outside offset) :
    swap.move offset < swap.target.length ↔ offset < swap.source.length := by
  rw [length_source, length_target]
  rcases outside with before | behind
  · have filled := List.length_pos_of_ne_nil trivia.old
    have filled' := List.length_pos_of_ne_nil trivia.new
    rw [move_of_le before]
    omega
  · obtain ⟨further, rfl⟩ := Nat.exists_eq_add_of_le behind
    rw [move_add trivia (Nat.le_refl _), move_behind trivia]
    omega

theorem take_target (inside : offset + width ≤ swap.place) :
    (swap.target.drop offset).take width = (swap.source.drop offset).take width := by
  have start : offset ≤ swap.before.length := Nat.le_trans (Nat.le_add_right _ _) inside
  have fits : width ≤ (swap.before.drop offset).length := by
    rw [List.length_drop]
    exact Nat.le_sub_of_add_le' inside
  rw [target, source, List.drop_append_of_le_length start, List.drop_append_of_le_length start,
    List.take_append_of_le_length fits, List.take_append_of_le_length fits]

end Replacement

/-! ## Related values -/

/-- Two values are both refused, or both accepted and related. -/
def Accords {α β : Type} (post : α → β → Prop) : Except Fault α → Except Fault β → Prop
  | .ok value, .ok value' => post value value'
  | .error _, .error _ => True
  | _, _ => False

namespace Accords

variable {α β γ δ : Type} {post : α → β → Prop} {value : Except Fault α} {value' : Except Fault β}

theorem mono {weaker : α → β → Prop} (accords : Accords post value value')
    (follows : ∀ found found', post found found' → weaker found found') :
    Accords weaker value value' := by
  cases value <;> cases value'
  · trivial
  · cases accords
  · cases accords
  · exact follows _ _ accords

theorem bind {later : γ → δ → Prop} {f : α → Except Fault γ} {g : β → Except Fault δ}
    (accords : Accords (fun found found' => Accords later (f found) (g found')) value value') :
    Accords later (value.bind f) (value'.bind g) := by
  cases value <;> cases value'
  · trivial
  · cases accords
  · cases accords
  · exact accords

theorem map {later : γ → δ → Prop} {f : α → γ} {g : β → δ}
    (accords : Accords (fun found found' => later (f found) (g found')) value value') :
    Accords later (value.map f) (value'.map g) := by
  cases value <;> cases value'
  · trivial
  · cases accords
  · cases accords
  · exact accords

end Accords

def Extent.move (σ : Nat → Nat) (extent : Extent) : Extent :=
  ⟨σ extent.start, σ extent.content, σ extent.stop⟩

namespace Peg

/-- The values of two readings that differ in offsets, moved by `σ`, and in trivia are related by
`post`, given how the values of rules are carried along. -/
def Moves (σ : Nat → Nat) (carry : Value → Value) {α : Type} :
    Peg Category Value Fault α → (α → α → Prop) → Prop
  | .pure value, post => post value value
  | .terminal class_, post =>
    ∀ text text', (class_ ≠ .trivia → text' = text) → post text text'
  | .rule _, post => ∀ value, post value (carry value)
  | .sequence first second, post =>
    first.Moves σ carry fun f f' =>
      second.Moves σ carry fun value value' => post (f value) (f' value')
  | .choice first second, post => first.Moves σ carry post ∧ second.Moves σ carry post
  | .optional part, post =>
    post none none ∧ part.Moves σ carry fun value value' => post (some value) (some value')
  | .many part, post =>
    ∃ related, part.Moves σ carry related
      ∧ ∀ values values', List.Forall₂ related values values' → post values values'
  | .unless _, post => post () ()
  | .located part, post =>
    part.Moves σ carry fun value value' => ∀ extent, post (extent, value) (extent.move σ, value')
  | .verbatim part, post =>
    part.Moves σ carry fun _ _ => ∀ text text', trim text' = trim text → post text text'
  | .check part accept, post =>
    part.Moves σ carry fun value value' => Accords post (accept value) (accept value')

theorem Moves.mono {σ : Nat → Nat} {carry : Value → Value} {α : Type}
    {part : Peg Category Value Fault α} {post weaker : α → α → Prop}
    (moves : part.Moves σ carry post)
    (follows : ∀ value value', post value value' → weaker value value') :
    part.Moves σ carry weaker := by
  induction part with
  | pure value => exact follows value value moves
  | terminal class_ =>
    intro text text' same
    exact follows text text' (moves text text' same)
  | rule name =>
    intro value
    exact follows value (carry value) (moves value)
  | sequence first second firstIh secondIh =>
    refine firstIh moves fun f f' rest => secondIh rest ?_
    intro value value'
    exact follows (f value) (f' value')
  | choice first second firstIh secondIh =>
    exact ⟨firstIh moves.1 follows, secondIh moves.2 follows⟩
  | optional part ih =>
    refine ⟨follows none none moves.1, ih moves.2 ?_⟩
    intro value value'
    exact follows (some value) (some value')
  | many part ih =>
    obtain ⟨related, copies, whole⟩ := moves
    refine ⟨related, copies, ?_⟩
    intro values values' all
    exact follows values values' (whole values values' all)
  | «unless» class_ => exact follows () () moves
  | located part ih =>
    refine ih moves fun value value' holds extent => ?_
    exact follows _ _ (holds extent)
  | verbatim part ih =>
    refine ih moves fun _ _ holds text text' same => ?_
    exact follows text text' (holds text text' same)
  | check part accept ih =>
    refine ih moves fun value value' accords => ?_
    exact accords.mono follows

end Peg

/-! ## Soundness -/

/-- A match of the source goes along with a match of the target: it ends at an offset outside the
old part, which is moved to the end of the other one, and so is the end of its content; the values
are related as the expression promises. -/
structure Match.Moved (swap : Replacement) (carry : Value → Value) {α : Type}
    (part : Peg Category Value Fault α) (offset : Nat) (result result' : Match Fault α) : Prop where
  outside : swap.Outside (offset + result.width)
  width : swap.move (offset + result.width) = swap.move offset + result'.width
  content : result'.leaves.contentStop? = result.leaves.contentStop?.map swap.move
  value : ∀ post, part.Moves swap.move carry post → Accords post result.value result'.value

namespace Match.Moved

variable {swap : Replacement} {carry : Value → Value} {α β γ : Type}
  {part : Peg Category Value Fault α} {offset : Nat}

theorem empty (outside : swap.Outside offset) {value : α}
    (related : ∀ post, part.Moves swap.move carry post → post value value) :
    Moved swap carry part offset (.empty value : Match Fault α) (.empty value) where
  outside := outside
  width := rfl
  content := rfl
  value := related

theorem lexeme {class_ : Terminal} {width : Nat} {text text' : String} (same : text' = text)
    (outside : swap.Outside (offset + width))
    (moved : swap.move (offset + width) = swap.move offset + width) :
    Moved swap carry (.terminal class_ : Peg Category Value Fault String) offset
      ⟨.ok text, width, .leaf class_ offset width⟩
      ⟨.ok text', width, .leaf class_ (swap.move offset) width⟩ where
  outside := outside
  width := moved
  content := by
    simp only [Leaves.contentStop?]
    split
    · rfl
    · split
      · rfl
      · rw [Option.map_some, moved]
  value post moves := moves text text' fun _ => same

theorem of_eq {whole : Peg Category Value Fault β} {result result' : Match Fault α}
    {wider wider' : Match Fault β} (moved : Moved swap carry part offset result result')
    (width : wider.width = result.width) (leaves : wider.leaves = result.leaves)
    (width' : wider'.width = result'.width) (leaves' : wider'.leaves = result'.leaves)
    (value : ∀ post, whole.Moves swap.move carry post → Accords post wider.value wider'.value) :
    Moved swap carry whole offset wider wider' where
  outside := width ▸ moved.outside
  width := by rw [width, width', moved.width]
  content := by rw [leaves, leaves', moved.content]
  value := value

theorem append {other : Peg Category Value Fault β} {whole : Peg Category Value Fault γ}
    {left left' : Match Fault α} {right right' : Match Fault β} {f : α → β → γ}
    (former : Moved swap carry part offset left left')
    (latter : Moved swap carry other (offset + left.width) right right')
    (value : ∀ post, whole.Moves swap.move carry post →
      Accords post (left.append f right).value (left'.append f right').value) :
    Moved swap carry whole offset (left.append f right) (left'.append f right') where
  outside := by
    rw [Match.width_append, ← Nat.add_assoc]
    exact latter.outside
  width := by
    rw [Match.width_append, Match.width_append, ← Nat.add_assoc, latter.width, former.width,
      Nat.add_assoc]
  content := by
    have leaves : (left.append f right).leaves.contentStop?
        = (right.leaves.contentStop? <|> left.leaves.contentStop?) := rfl
    have leaves' : (left'.append f right').leaves.contentStop?
        = (right'.leaves.contentStop? <|> left'.leaves.contentStop?) := rfl
    rw [leaves, leaves', former.content, latter.content]
    cases right.leaves.contentStop? <;> rfl
  value := value

theorem extent {result result' : Match Fault α} (moved : Moved swap carry part offset result result') :
    result'.extent (swap.move offset) = (result.extent offset).move swap.move := by
  rw [Match.extent, Match.extent, Extent.move, moved.content, moved.width]
  cases result.leaves.contentStop? with
  | none =>
    rw [Option.map_none, Option.getD_none, Option.getD_none, moved.width]
  | some content => rfl

end Match.Moved

theorem Accords.append {α β γ : Type} {post : γ → γ → Prop} {f : α → β → γ}
    {left left' : Match Fault α} {right right' : Match Fault β}
    (former : Accords (fun found found' =>
      Accords (fun value value' => post (f found value) (f found' value')) right.value right'.value)
      left.value left'.value) :
    Accords post (left.append f right).value (left'.append f right').value := by
  have value : ∀ (left : Match Fault α) (right : Match Fault β), (left.append f right).value
      = left.value.bind fun found => right.value.map fun value => f found value := by
    intro left right
    simp only [Match.append]
    cases left.value <;> cases right.value <;> rfl
  rw [value, value]
  exact Accords.bind (former.mono fun found found' latter => latter.map)

namespace Reads

variable {swap : Replacement} {grammar : RankedGrammar Category Value Fault} {γ : Type}
  {start : Peg Category Value Fault γ} {carry : Value → Value}

theorem moved_terminal (trivia : swap.IsTrivia) (unseen : swap.Unseen grammar start)
    {class_ : Terminal} {offset : Nat} (called : swap.Calls grammar start ⟨.terminal class_, offset⟩)
    (outside : swap.Outside offset) :
    Option.Rel (Match.Moved swap carry (.terminal class_ : Peg Category Value Fault String) offset)
      ((class_.scan (swap.source.drop offset)).map fun width =>
        ⟨.ok (String.ofList ((swap.source.drop offset).take width)), width,
          .leaf class_ offset width⟩)
      ((class_.scan (swap.target.drop (swap.move offset))).map fun width =>
        ⟨.ok (String.ofList ((swap.target.drop (swap.move offset)).take width)), width,
          .leaf class_ (swap.move offset) width⟩) := by
  rcases outside with before | behind
  -- the trivia that is replaced differs in width; every other lexeme before it stays as it is
  · by_cases here : class_ = .trivia ∧ offset = swap.place
    · obtain ⟨rfl, rfl⟩ := here
      have filled := List.length_pos_of_ne_nil trivia.old
      have filled' := List.length_pos_of_ne_nil trivia.new
      rw [Replacement.move_of_le before, Replacement.drop_source, Replacement.drop_target,
        trivia.scanOld, trivia.scanNew]
      refine .some ⟨.inr (Nat.le_refl _), ?_, ?_, ?_⟩
      · rw [Replacement.move_behind trivia, Replacement.move_of_le before]
      · simp only [Leaves.contentStop?, if_neg (Nat.ne_of_gt filled), if_neg (Nat.ne_of_gt filled'),
          if_true, Option.map_some, Replacement.move_of_le before]
      · intro post moves
        exact moves _ _ fun token => absurd rfl token
    · have other : class_ = .trivia → offset < swap.place := by
        intro blank
        exact Nat.lt_of_le_of_ne before fun reached => here ⟨blank, reached⟩
      obtain ⟨same, ends⟩ := unseen.lexeme class_ offset called before other
      cases scanned : class_.scan (swap.source.drop offset) with
      | none =>
        rw [Replacement.move_of_le before, same, scanned]
        exact .none
      | some width =>
        have inside := ends width scanned
        have still : swap.move (offset + width) = swap.move offset + width := by
          rw [Replacement.move_of_le before, Replacement.move_of_le inside]
        have text : (swap.target.drop (swap.move offset)).take width
            = (swap.source.drop offset).take width := by
          rw [Replacement.move_of_le before, Replacement.take_target inside]
        have scanned' : class_.scan (swap.target.drop (swap.move offset)) = some width := by
          rw [Replacement.move_of_le before, same, scanned]
        rw [scanned']
        exact .some (.lexeme (congrArg String.ofList text) (.inl inside) still)
  · rw [Replacement.drop_target_move trivia behind]
    cases class_.scan (swap.source.drop offset) with
    | none => exact .none
    | some width =>
      exact .some (.lexeme rfl (.inr (Nat.le_trans behind (Nat.le_add_right _ _)))
        (Replacement.move_add trivia behind))

/-- **Readings go along.** What is read of the source at an offset outside the old part is read of
the target at the offset that it is moved to. -/
theorem moved (trivia : swap.IsTrivia) (unseen : swap.Unseen grammar start)
    (bodies : ∀ name, (grammar.body name).Moves swap.move carry fun value value' =>
      value' = carry value)
    {α : Type} {part : Peg Category Value Fault α} {offset : Nat} {text : List Char}
    {outcome : Option (Match Fault α)} (reads : Reads grammar part offset text outcome) :
    text = swap.source.drop offset → swap.Calls grammar start ⟨part, offset⟩ → swap.Outside offset →
      ∃ outcome', Reads grammar part (swap.move offset) (swap.target.drop (swap.move offset)) outcome'
        ∧ Option.Rel (Match.Moved swap carry part offset) outcome outcome' := by
  induction reads with
  | pure value =>
    rintro rfl called outside
    exact ⟨_, .pure value, .some (.empty outside fun post moves => moves)⟩
  | terminal class_ =>
    rintro rfl called outside
    exact ⟨_, .terminal class_, moved_terminal trivia unseen called outside⟩
  | @rule _ _ name _ inner ih =>
    rintro rfl called outside
    obtain ⟨outcome', reads', related⟩ := ih rfl (called.tail (.body name _)) outside
    refine ⟨outcome', .rule reads', ?_⟩
    cases related with
    | none => exact .none
    | some moved =>
      refine .some (moved.of_eq rfl rfl rfl rfl fun post moves => ?_)
      exact (moved.value _ (bodies name)).mono fun value value' same => same ▸ moves value
  | @sequence _ _ _ _ first second left _ former latter ihFormer ihLatter =>
    rintro rfl called outside
    obtain ⟨_, readsLeft, relatedLeft⟩ := ihFormer rfl (called.tail (.first first second _)) outside
    cases relatedLeft with
    | some movedLeft =>
      obtain ⟨outcome', readsRight, related⟩ := ihLatter List.drop_drop
        (called.tail (.second second former)) movedLeft.outside
      rw [movedLeft.width, ← List.drop_drop] at readsRight
      refine ⟨_, .sequence readsLeft readsRight, ?_⟩
      cases related with
      | none => exact .none
      | some movedRight =>
        refine .some (movedLeft.append movedRight fun post moves => Accords.append ?_)
        refine (movedLeft.value _ moves).mono fun f f' rest => ?_
        exact movedRight.value _ rest
  | @sequenceFails _ _ _ _ first second former ih =>
    rintro rfl called outside
    obtain ⟨_, reads', related⟩ := ih rfl (called.tail (.first first second _)) outside
    cases related with
    | none => exact ⟨_, .sequenceFails reads', .none⟩
  | @choice _ _ _ first second _ former ih =>
    rintro rfl called outside
    obtain ⟨_, reads', related⟩ := ih rfl (called.tail (.alternative first second _)) outside
    cases related with
    | some moved =>
      exact ⟨_, .choice reads',
        .some (moved.of_eq rfl rfl rfl rfl fun post moves => moved.value post moves.1)⟩
  | @otherwise _ _ _ first second _ former latter ihFormer ihLatter =>
    rintro rfl called outside
    obtain ⟨_, readsFirst, relatedFirst⟩ :=
      ihFormer rfl (called.tail (.alternative first second _)) outside
    obtain ⟨outcome', readsSecond, related⟩ :=
      ihLatter rfl (called.tail (.otherwise second former)) outside
    cases relatedFirst with
    | none =>
      refine ⟨outcome', .otherwise readsFirst readsSecond, ?_⟩
      cases related with
      | none => exact .none
      | some moved =>
        exact .some (moved.of_eq rfl rfl rfl rfl fun post moves => moved.value post moves.2)
  | @optional _ _ _ part _ inner ih =>
    rintro rfl called outside
    obtain ⟨_, reads', related⟩ := ih rfl (called.tail (.optional part _)) outside
    refine ⟨_, .optional reads', .some ?_⟩
    cases related with
    | none => exact .empty outside fun post moves => moves.1
    | some moved =>
      exact moved.of_eq rfl rfl rfl rfl fun post moves => (moved.value _ moves.2).map
  | @manyStop _ _ _ part inner ih =>
    rintro rfl called outside
    obtain ⟨_, reads', related⟩ := ih rfl (called.tail (.copy part _)) outside
    cases related with
    | none =>
      refine ⟨_, .manyStop reads', .some (.empty outside ?_)⟩
      rintro post ⟨related, copies, whole⟩
      exact whole [] [] .nil
  | @manyNext _ _ _ part _ _ former latter ihFormer ihLatter =>
    rintro rfl called outside
    obtain ⟨_, readsHead, relatedHead⟩ := ihFormer rfl (called.tail (.copy part _)) outside
    cases relatedHead with
    | some movedHead =>
      obtain ⟨_, readsTail, relatedTail⟩ := ihLatter List.drop_drop
        (called.tail (.again former)) movedHead.outside
      cases relatedTail with
      | some movedTail =>
        rw [movedHead.width, ← List.drop_drop] at readsTail
        refine ⟨_, .manyNext readsHead readsTail, .some (movedHead.append movedTail ?_)⟩
        rintro post ⟨related, copies, whole⟩
        -- The copies behind the first one are related one by one.
        have tail := movedTail.value (List.Forall₂ related) ⟨related, copies, fun _ _ all => all⟩
        refine Accords.append ((movedHead.value related copies).mono fun head head' first => ?_)
        exact tail.mono fun rest rest' all => whole _ _ (.cons first all)
  | @«unless» offset _ class_ =>
    rintro rfl called outside
    refine ⟨_, .unless class_, ?_⟩
    have same : (class_.scan (swap.target.drop (swap.move offset))).isSome
        = (class_.scan (swap.source.drop offset)).isSome := by
      rcases outside with before | behind
      · rw [Replacement.move_of_le before]
        exact unseen.guard class_ offset called before
      · rw [Replacement.drop_target_move trivia behind]
    rw [same]
    split
    · exact .none
    · exact .some (.empty outside fun post moves => moves)
  | @located _ _ _ part _ inner ih =>
    rintro rfl called outside
    obtain ⟨_, reads', related⟩ := ih rfl (called.tail (.located part _)) outside
    refine ⟨_, .located reads', ?_⟩
    cases related with
    | none => exact .none
    | some moved =>
      refine .some (moved.of_eq rfl rfl rfl rfl fun post moves => ?_)
      refine Accords.map ((moved.value _ moves).mono fun value value' holds => ?_)
      rw [moved.extent]
      exact holds _
  | @verbatim _ offset _ part _ inner ih =>
    rintro rfl called outside
    obtain ⟨_, reads', related⟩ := ih rfl (called.tail (.verbatim part _)) outside
    refine ⟨_, .verbatim reads', ?_⟩
    cases related with
    | none => exact .none
    | @some result result' moved =>
      refine .some (moved.of_eq rfl rfl rfl rfl fun post moves => ?_)
      refine Accords.map ((moved.value _ moves).mono fun value value' holds => holds _ _ ?_)
      rcases outside with before | behind
      · have kept := unseen.kept part offset result called before inner
        rw [moved.width, Replacement.move_of_le before, Nat.add_sub_cancel_left] at kept
        rw [Replacement.move_of_le before]
        exact kept
      · have width := moved.width
        rw [Replacement.move_add trivia behind] at width
        rw [Replacement.drop_target_move trivia behind, Nat.add_left_cancel width]
  | @check _ _ _ _ part accept _ inner ih =>
    rintro rfl called outside
    obtain ⟨_, reads', related⟩ := ih rfl (called.tail (.check part accept _)) outside
    refine ⟨_, .check reads', ?_⟩
    cases related with
    | none => exact .none
    | some moved =>
      exact .some (moved.of_eq rfl rfl rfl rfl fun post moves => (moved.value _ moves).bind)

end Reads

end TemplateLint.Grammar
