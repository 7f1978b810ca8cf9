import TemplateLint.Grammar.Parse
import TemplateLint.Proofs.Grammar.Tracks
import TemplateLint.Proofs.Syntax.Nesting

/-!
# The nodes that productions yield

A production yields nodes if the nodes in what it reads form a run between the offset where it
starts and the end of its content (`Peg.Yields`). It is followed part by part, with the nodes that
have been read so far (`Peg.Builds`).
-/

namespace TemplateLint.Grammar

open TemplateLint.Syntax

/-- What the rules of the grammar read is a nested node that lies where it is read. -/
def placed (source : List Char) (_ : Category) (low high : Nat) (node : Node) : Prop :=
  Run source low high [node]

namespace Peg

variable {α β γ δ ε ζ : Type}

/-- The nodes in what is read form a run, from the offset where reading starts to the end of the
content. -/
class Yields (part : Parser α) (nodes : outParam (α → List Node)) : Prop where
  run : ∀ source cursor, part.Tracks source (placed source) cursor fun after value =>
    cursor ≤ after ∧ Run source cursor.place after.content (nodes value)

abbrev YieldsNode (part : Parser Node) : Prop := part.Yields fun node => [node]

/-- Reading moves the cursor on, and no nodes come of it. -/
class Quiet (part : Parser α) : Prop where
  moves : ∀ source cursor, part.Tracks source (placed source) cursor fun after _ => cursor ≤ after

/-- After some nodes that form a run, a run of nodes has been read for which `post` holds. -/
def Builds (part : Parser α) (nodes : List Node) (post : List Node → α → Prop) : Prop :=
  ∀ (source : List Char) (start : Nat) (cursor : Cursor), start ≤ cursor.place →
    Run source start cursor.content nodes →
    part.Tracks source (placed source) cursor fun after value =>
      cursor ≤ after ∧ ∃ more, Run source start after.content more ∧ post more value

/-! ## Sequences -/

section Sequences

variable {part : Parser α} {nodes : List Node} {post : List Node → α → Prop}
  {yield : α → List Node}

theorem builds_part [yields : part.Yields yield]
    (holds : ∀ value, post (nodes ++ yield value) value) : part.Builds nodes post := by
  intro source start cursor begun run
  apply (yields.run source cursor).mono
  rintro after value ⟨moved, further⟩
  refine ⟨moved, _, run.append further begun cursor.ordered moved.1, holds value⟩

theorem Builds.yields
    (builds : part.Builds [] fun nodes value => Gathers nodes (yield value)) :
    part.Yields yield := by
  constructor
  intro source cursor
  apply (builds source cursor.place cursor (Nat.le_refl _) (.nil _ _ _)).mono
  rintro after value ⟨moved, nodes, run, gathers⟩
  exact ⟨moved, gathers _ _ _ run⟩

instance (priority := high) Quiet.yields [quiet : part.Quiet] : part.Yields fun _ => [] := by
  constructor
  intro source cursor
  apply (quiet.moves source cursor).mono
  intro after value moved
  exact ⟨moved, .nil _ _ _⟩

theorem builds_map {f : α → β} {post : List Node → β → Prop}
    (builds : part.Builds nodes fun more value => post more (f value)) :
    (f <$> part).Builds nodes post := builds

theorem builds_seq {first : Parser (α → β)} {second : Parser α} {post : List Node → β → Prop}
    (builds : first.Builds nodes fun more f =>
      second.Builds more fun last value => post last (f value)) :
    (first <*> second).Builds nodes post := by
  intro source start cursor begun run
  apply (builds source start cursor begun run).mono
  rintro middle f ⟨moved, more, runMore, rest⟩
  apply (rest source start middle (Nat.le_trans begun moved.2) runMore).mono
  rintro after value ⟨moved', last, runLast, holds⟩
  exact ⟨Cursor.le_trans moved moved', last, runLast, holds⟩

theorem Builds.mono {post' : List Node → α → Prop} (builds : part.Builds nodes post)
    (holds : ∀ more value, post more value → post' more value) : part.Builds nodes post' := by
  intro source start cursor begun run
  apply (builds source start cursor begun run).mono
  rintro after value ⟨moved, more, runMore, held⟩
  exact ⟨moved, more, runMore, holds more value held⟩

section Parts

variable [yields : part.Yields yield]

theorem builds_start {f : α → β} {post : List Node → β → Prop}
    (holds : ∀ value, post (nodes ++ yield value) (f value)) : (f <$> part).Builds nodes post :=
  builds_map (builds_part holds)

theorem builds_next {first : Parser (α → β)} {post : List Node → β → Prop}
    (former : first.Builds nodes fun more f => ∀ value, post (more ++ yield value) (f value)) :
    (first <*> part).Builds nodes post :=
  builds_seq (former.mono fun _ _ holds => builds_part holds)

variable {partB : Parser β} {yieldB : β → List Node} [second : partB.Yields yieldB]

theorem builds_map₂ {f : α → β → γ} {post : List Node → γ → Prop}
    (holds : ∀ a b, post (nodes ++ yield a ++ yieldB b) (f a b)) :
    (f <$> part <*> partB).Builds nodes post :=
  builds_next (builds_start holds)

variable {partC : Parser γ} {yieldC : γ → List Node} [third : partC.Yields yieldC]

theorem builds_map₃ {f : α → β → γ → δ} {post : List Node → δ → Prop}
    (holds : ∀ a b c, post (nodes ++ yield a ++ yieldB b ++ yieldC c) (f a b c)) :
    (f <$> part <*> partB <*> partC).Builds nodes post :=
  builds_next (builds_next (builds_start holds))

variable {partD : Parser δ} {yieldD : δ → List Node} [fourth : partD.Yields yieldD]

theorem builds_map₄ {f : α → β → γ → δ → ε} {post : List Node → ε → Prop}
    (holds : ∀ a b c d, post (nodes ++ yield a ++ yieldB b ++ yieldC c ++ yieldD d) (f a b c d)) :
    (f <$> part <*> partB <*> partC <*> partD).Builds nodes post :=
  builds_next (builds_next (builds_next (builds_start holds)))

theorem builds_map₅ {partE : Parser ε} {yieldE : ε → List Node} [fifth : partE.Yields yieldE]
    {f : α → β → γ → δ → ε → ζ} {post : List Node → ζ → Prop}
    (holds : ∀ a b c d e,
      post (nodes ++ yield a ++ yieldB b ++ yieldC c ++ yieldD d ++ yieldE e) (f a b c d e)) :
    (f <$> part <*> partB <*> partC <*> partD <*> partE).Builds nodes post :=
  builds_next (builds_next (builds_next (builds_next (builds_start holds))))

end Parts

theorem builds_check {accept : α → Except SyntaxError β} {post : List Node → β → Prop}
    (builds : part.Builds nodes fun more value => ∀ result, accept value = .ok result →
      post more result) : Builds (.check part accept) nodes post := by
  intro source start cursor begun run
  apply (builds source start cursor begun run).mono
  rintro after value ⟨moved, more, runMore, holds⟩ result accepted
  exact ⟨moved, more, runMore, holds result accepted⟩

theorem Builds.skip {second : Parser β} [second.Quiet] (builds : part.Builds nodes post) :
    (part <* second).Builds nodes post :=
  builds_seq (builds_map (builds.mono fun more value held =>
    builds_part fun _ => by rwa [List.append_nil]))

end Sequences

/-! ## Yields -/

namespace Yields

variable {part : Parser α} {yield : α → List Node}

theorem gather {yield' : α → List Node} (yields : part.Yields yield)
    (gathers : ∀ value, Gathers (yield value) (yield' value)) : part.Yields yield' :=
  Builds.yields (builds_part gathers)

theorem map {f : α → β} {yield : β → List Node} (yields : part.Yields fun value => yield (f value)) :
    (f <$> part).Yields yield := ⟨yields.run⟩

theorem orElse {other : Parser α} (first : part.Yields yield) (second : other.Yields yield) :
    (part <|> other).Yields yield :=
  ⟨fun source cursor => ⟨first.run source cursor, second.run source cursor⟩⟩

theorem ahead {second : Parser β} [second.Quiet] (yields : part.Yields yield) :
    (part <* second).Yields yield :=
  Builds.yields (.skip (builds_part fun _ _ _ _ run => run))

variable [yields : part.Yields yield]

instance choice {other : Parser α} [second : other.Yields yield] : (part <|> other).Yields yield :=
  yields.orElse second

instance after {first : Parser β} [first.Quiet] : (first *> part).Yields yield :=
  Builds.yields (builds_map₂ fun _ _ _ _ _ run => run)

instance before {second : Parser β} [second.Quiet] : (part <* second).Yields yield := yields.ahead

instance optional : Yields (.optional part) fun value? => value?.toList.flatMap yield := by
  constructor
  intro source cursor
  refine ⟨⟨cursor.le_refl, .nil _ _ _⟩, (yields.run source cursor).mono ?_⟩
  rintro after value ⟨moved, run⟩
  refine ⟨moved, ?_⟩
  simpa using run

instance many : Yields (.many part) fun values => values.flatMap yield := by
  constructor
  intro source cursor
  refine ⟨fun after values => cursor ≤ after
    ∧ Run source cursor.place after.content (values.flatMap yield),
    ⟨cursor.le_refl, .nil _ _ _⟩, ?_, ?_⟩
  · rintro middle values ⟨moved, run⟩
    apply (yields.run source middle).mono
    rintro after value ⟨moved', further⟩
    refine ⟨Cursor.le_trans moved moved', ?_⟩
    rw [List.flatMap_append, List.flatMap_singleton]
    exact run.append further moved.2 middle.ordered moved'.1
  · intro after values kept
    exact kept

end Yields

/-! ## Located parts -/

theorem yields_located {part : Parser α} {yield : Extent × α → List Node}
    (filled : part.nullable = false)
    (builds : part.Builds [] fun nodes value => ∀ (source : List Char) (extent : Extent),
      extent.start ≤ extent.content → Run source extent.start extent.content nodes →
        Run source extent.start extent.content (yield (extent, value))) :
    Yields (.located part) yield := by
  constructor
  intro source cursor
  apply (builds source cursor.place (.ofPlace cursor.place) (Nat.le_refl _) (.nil _ _ _)).mono
  rintro inner value ⟨moved, nodes, run, holds⟩ after moved' _ ends
  refine ⟨moved', ?_⟩
  rw [ends filled]
  exact holds source ⟨cursor.place, inner.content, inner.place⟩ moved.1 run

theorem yields_node {form : Parser Form} (filled : form.nullable = false)
    (builds : form.Builds [] Syntax.Fits) : (node form).YieldsNode :=
  .map (yields_located filled (builds.mono fun _ _ fits _ _ ordered run => fits.run ordered run))

theorem yields_wrapped {part : Parser α} {yield : α → List Node} {f : α → Form}
    [part.Yields yield] (filled : part.nullable = false)
    (parts : ∀ value, (f value).fields.nodes = yield value) :
    (node (f <$> part)).YieldsNode :=
  yields_node filled (builds_start fun value => fits_parts (parts value))

end Peg

open Peg

/-! ## Lexemes -/

section Lexemes

variable {α β : Type} {part : Parser α}

instance Peg.Quiet.map [quiet : part.Quiet] (f : α → β) : (f <$> part).Quiet := ⟨quiet.moves⟩

instance Peg.Quiet.choice {first second : Parser α} [former : first.Quiet] [latter : second.Quiet] :
    (first <|> second).Quiet :=
  ⟨fun source cursor => ⟨former.moves source cursor, latter.moves source cursor⟩⟩

instance Peg.Quiet.seqLeft {first : Parser α} {second : Parser β} [former : first.Quiet]
    [latter : second.Quiet] : (first <* second).Quiet := by
  constructor
  intro source cursor
  apply (former.moves source cursor).mono
  intro middle _ moved
  apply (latter.moves source middle).mono
  intro after _ moved'
  exact Cursor.le_trans moved moved'

instance Peg.Quiet.seqRight {first : Parser α} {second : Parser β} [former : first.Quiet]
    [latter : second.Quiet] : (first *> second).Quiet :=
  ⟨(Quiet.seqLeft : (first <* second).Quiet).moves⟩

instance Peg.Quiet.optional [quiet : part.Quiet] : Quiet (.optional part) :=
  ⟨fun source cursor => ⟨cursor.le_refl, quiet.moves source cursor⟩⟩

instance Peg.Quiet.trimmed [quiet : part.Quiet] : (trimmed part).Quiet := by
  constructor
  intro source cursor
  apply (quiet.moves source cursor).mono
  intro after _ moved _
  exact moved

instance quiet_terminal (class_ : Terminal) : Quiet (.terminal class_) :=
  ⟨fun _ _ _ moved _ _ _ _ => moved⟩

instance quiet_unless (class_ : Terminal) : Quiet (.unless class_) :=
  ⟨fun _ cursor => cursor.le_refl⟩

instance quiet_skip [part.Quiet] : (skip part).Quiet := .map _

instance quiet_trivia : trivia.Quiet := quiet_skip

instance quiet_lexeme (class_ : Terminal) : (lexeme class_).Quiet := .seqLeft

instance quiet_mark (text : String) : (mark text).Quiet := quiet_skip

instance quiet_symbol (text : String) : (symbol text).Quiet := .seqLeft

instance quiet_keyword (text : String) : (keyword text).Quiet := quiet_skip

instance quiet_semicolon : semicolon.Quiet := quiet_skip

variable {yield : α → List Node} [part.Yields yield]

instance yields_braced : (braced part).Yields yield := .before

instance yields_parenthesized : (parenthesized part).Yields yield := .before

instance yields_bracketed : (bracketed part).Yields yield := .before

instance yields_separated : (separated part).Yields fun values => values.flatMap yield := by
  refine Builds.yields (builds_map₂ fun first rest => ?_)
  intro source low high run
  simpa using run

instance yields_commaList : (commaList part).Yields fun values => values.flatMap yield := by
  refine Builds.yields (builds_start fun values? => ?_)
  intro source low high run
  cases values? <;> simpa using run

end Lexemes

/-! ## Rules and names -/

theorem yields_rule (name : Category) : Yields (.rule name) fun node => [node] :=
  ⟨fun _ _ _ moved _ _ run => ⟨moved, run⟩⟩

instance : bindingTarget.YieldsNode := yields_rule _
instance : jsxElement.YieldsNode := yields_rule _
instance : jsxFragment.YieldsNode := yields_rule _
instance : construction.YieldsNode := yields_rule _
instance : primary.YieldsNode := yields_rule _
instance : callExpression.YieldsNode := yields_rule _
instance : unary.YieldsNode := yields_rule _
instance : assignment.YieldsNode := yields_rule _
instance : expression.YieldsNode := yields_rule _
instance : statement.YieldsNode := yields_rule _

theorem yields_nameOf {class_ : Terminal} (filled : class_.nullable = false) {make : Ident → Form}
    (parts : ∀ id, (make id).fields.nodes = []) :
    (nameOf class_).Yields fun id => [⟨id.span, make id⟩] := by
  constructor
  intro source cursor inner moved scanned token name _ after moved' reached ends
  have settled : inner.place = after.content := by
    rw [ends filled, (token filled).2]
  exact ⟨moved', .single (fits_parts (parts _) _ _ _ moved.2 (.nil _ _ _)) (Nat.le_refl _)
    (Nat.le_of_eq settled)⟩

instance yields_identifier : identifier.Yields fun id => [id.node] :=
  .ahead (yields_nameOf rfl fun _ => by simp [Form.fields])

instance yields_anyName : anyName.Yields fun id => [id.node] :=
  .ahead (yields_nameOf rfl fun _ => by simp [Form.fields])

end TemplateLint.Grammar
