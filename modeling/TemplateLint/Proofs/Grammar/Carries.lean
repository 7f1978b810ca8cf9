import Mathlib.Logic.Basic
import TemplateLint.Proofs.Grammar.Moves
import TemplateLint.Proofs.Syntax.Move

/-!
# How productions carry moved values

A production carries its values by a function if the value it reads from a text with other trivia
is that function of the value it reads from the original text (`Peg.Carries`). The function is
found by instance search from the parts of a production, up to what the production makes of them.
-/

namespace TemplateLint.Grammar

open TemplateLint.Syntax

/-- Only trivia may be written in another way. -/
@[reducible] def Terminal.isToken : Terminal → Bool
  | .trivia => false
  | _ => true

instance fact_true : Fact (true = true) := ⟨rfl⟩

namespace Peg

variable {σ : Nat → Nat} {α β γ δ ε ζ : Type}

/-- If nodes are moved, the values that an expression reads are moved by the given action. -/
class Carries (σ : Nat → Nat) (part : Parser α) (act : outParam (α → α)) : Prop where
  related : part.Moves σ (Node.move σ) fun value value' => value' = act value

abbrev CarriesNode (σ : Nat → Nat) (part : Parser Node) : Prop := part.Carries σ (Node.move σ)

variable {part : Parser α} {act : α → α}

theorem Carries.moves (carries : part.Carries σ act) {post : α → α → Prop}
    (holds : ∀ value, post value (act value)) : part.Moves σ (Node.move σ) post := by
  apply Moves.mono carries.related
  rintro value _ rfl
  exact holds value

theorem Moves.start [carries : part.Carries σ act] {f : α → β} {post : β → β → Prop}
    (holds : ∀ value, post (f value) (f (act value))) : (f <$> part).Moves σ (Node.move σ) post :=
  carries.moves holds

theorem Moves.next [carries : part.Carries σ act] {first : Parser (α → β)} {post : β → β → Prop}
    (former : first.Moves σ (Node.move σ) fun f f' => ∀ value, post (f value) (f' (act value))) :
    (first <*> part).Moves σ (Node.move σ) post :=
  former.mono fun _ _ holds => carries.moves holds

namespace Carries

variable [carries : part.Carries σ act]

omit carries in
theorem orElse {other : Parser α} (first : part.Carries σ act) (second : other.Carries σ act) :
    (part <|> other).Carries σ act :=
  ⟨first.related, second.related⟩

instance choice {other : Parser α} [second : other.Carries σ act] :
    (part <|> other).Carries σ act :=
  carries.orElse second

instance optional : Carries σ (.optional part) (Option.map act) :=
  ⟨rfl, carries.moves fun _ => rfl⟩

instance many : Carries σ (.many part) (List.map act) := by
  refine ⟨_, carries.related, ?_⟩
  intro values values' all
  induction all with
  | nil => rfl
  | cons first _ ih => rw [first, ih, List.map_cons]

instance located : Carries σ (.located part) (Prod.map (Extent.move σ) act) :=
  ⟨carries.moves fun _ _ => rfl⟩

instance trimmed : (trimmed part).Carries σ id :=
  ⟨carries.moves fun _ _ _ same => congrArg String.ofList same⟩

theorem check {accept : α → Except SyntaxError β} {act' : β → β}
    (accords : ∀ value, Accords (fun result result' => result' = act' result) (accept value)
      (accept (act value))) : Carries σ (.check part accept) act' :=
  ⟨carries.moves accords⟩

/-! ## Sequences -/

theorem map {f : α → β} {act' : β → β} (same : ∀ value, f (act value) = act' (f value)) :
    (f <$> part).Carries σ act' :=
  ⟨.start same⟩

variable {partB : Parser β} {actB : β → β} [second : partB.Carries σ actB]

instance after : (partB *> part).Carries σ act :=
  ⟨second.moves fun _ => carries.related⟩

omit carries second in
theorem ahead (carries : part.Carries σ act) [second : partB.Carries σ actB] :
    (part <* partB).Carries σ act :=
  ⟨carries.moves fun _ => second.moves fun _ => rfl⟩

instance before : (part <* partB).Carries σ act := ahead carries

theorem map₂ {f : α → β → γ} {whole : γ → γ} (same : ∀ a b, f (act a) (actB b) = whole (f a b)) :
    (f <$> part <*> partB).Carries σ whole :=
  ⟨.next (.start same)⟩

instance pair : (Prod.mk <$> part <*> partB).Carries σ (Prod.map act actB) := map₂ fun _ _ => rfl

variable {partC : Parser γ} {actC : γ → γ} [third : partC.Carries σ actC]

theorem map₃ {f : α → β → γ → δ} {whole : δ → δ}
    (same : ∀ a b c, f (act a) (actB b) (actC c) = whole (f a b c)) :
    (f <$> part <*> partB <*> partC).Carries σ whole :=
  ⟨.next (.next (.start same))⟩

variable {partD : Parser δ} {actD : δ → δ} [fourth : partD.Carries σ actD]

theorem map₄ {f : α → β → γ → δ → ε} {whole : ε → ε}
    (same : ∀ a b c d, f (act a) (actB b) (actC c) (actD d) = whole (f a b c d)) :
    (f <$> part <*> partB <*> partC <*> partD).Carries σ whole :=
  ⟨.next (.next (.next (.start same)))⟩

theorem map₅ {partE : Parser ε} {actE : ε → ε} [fifth : partE.Carries σ actE]
    {f : α → β → γ → δ → ε → ζ} {whole : ζ → ζ}
    (same : ∀ a b c d e, f (act a) (actB b) (actC c) (actD d) (actE e) = whole (f a b c d e)) :
    (f <$> part <*> partB <*> partC <*> partD <*> partE).Carries σ whole :=
  ⟨.next (.next (.next (.next (.start same))))⟩

end Carries

end Peg

open Peg

variable {σ : Nat → Nat} {α : Type} {part : Parser α} {act : α → α}

/-! ## Nodes -/

section Rules

variable (σ)

theorem carries_rule (name : Category) : Carries σ (.rule name) (Node.move σ) := ⟨fun _ => rfl⟩

instance : bindingTarget.CarriesNode σ := carries_rule σ _
instance : jsxElement.CarriesNode σ := carries_rule σ _
instance : jsxFragment.CarriesNode σ := carries_rule σ _
instance : construction.CarriesNode σ := carries_rule σ _
instance : primary.CarriesNode σ := carries_rule σ _
instance : callExpression.CarriesNode σ := carries_rule σ _
instance : unary.CarriesNode σ := carries_rule σ _
instance : assignment.CarriesNode σ := carries_rule σ _
instance : expression.CarriesNode σ := carries_rule σ _
instance : statement.CarriesNode σ := carries_rule σ _

end Rules

theorem carries_node {form : Parser Form} (_ : form.Carries σ (Form.move σ)) :
    (node form).CarriesNode σ := by
  refine .map ?_
  rintro ⟨extent, form⟩
  rw [Node.move]
  rfl

/-! ## Lexemes -/

instance carries_terminal {class_ : Terminal} [token : Fact (class_.isToken = true)] :
    Carries σ (.terminal class_) id := by
  refine ⟨fun _ _ same => same ?_⟩
  rintro rfl
  exact Bool.false_ne_true token.out

instance carries_unless (class_ : Terminal) : Carries σ (.unless class_) id := ⟨rfl⟩

instance carries_trivia : trivia.Carries σ id := ⟨fun _ _ _ => rfl⟩

instance carries_lexeme {class_ : Terminal} [Fact (class_.isToken = true)] :
    (lexeme class_).Carries σ id :=
  .before

instance carries_skip [part.Carries σ act] : (skip part).Carries σ id := .map fun _ => rfl

instance carries_mark (text : String) : (mark text).Carries σ id := carries_skip

instance carries_symbol (text : String) : (symbol text).Carries σ id := .before

instance carries_keyword (text : String) : (keyword text).Carries σ id := carries_skip

instance carries_semicolon : semicolon.Carries σ id := carries_skip

section Lists

variable [part.Carries σ act]

instance carries_braced : (braced part).Carries σ act := .before

instance carries_parenthesized : (parenthesized part).Carries σ act := .before

instance carries_bracketed : (bracketed part).Carries σ act := .before

instance carries_separated : (separated part).Carries σ (List.map act) := .map₂ fun _ _ => rfl

instance carries_commaList : (commaList part).Carries σ (List.map act) := by
  refine .map ?_
  intro values?
  cases values? <;> rfl

end Lists

/-! ## Names -/

instance carries_nameOf {class_ : Terminal} [Fact (class_.isToken = true)] :
    (nameOf class_).Carries σ (Ident.move σ) :=
  .map fun _ => rfl

instance carries_identifier : identifier.Carries σ (Ident.move σ) := .before

instance carries_anyName : anyName.Carries σ (Ident.move σ) := .before

end TemplateLint.Grammar
