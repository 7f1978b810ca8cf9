import TemplateLint.Proofs.Grammar.Tracks

/-!
# What readings ensure

`Peg.Ensures` computes, from what holds of the values of the named rules, a condition under
which every value that an expression reads satisfies a statement. It is a case of `Peg.Tracks` that
leaves offsets aside (`Peg.Ensures.tracks`), and so it is sound (`Reads.ensures`).
-/

namespace TemplateLint.Grammar

variable {Category Value Fault : Type}

namespace Peg

/-- Every value that an expression reads satisfies `post`, given what holds of the values of
the named rules. -/
def Ensures (rules : Category → Value → Prop) {α : Type} :
    Peg Category Value Fault α → (α → Prop) → Prop
  | .pure value, post => post value
  | .terminal class_, post => ∀ text, class_.Takes text → post text
  | .rule name, post => ∀ value, rules name value → post value
  | .sequence first second, post =>
    first.Ensures rules fun f => second.Ensures rules fun value => post (f value)
  | .choice first second, post => first.Ensures rules post ∧ second.Ensures rules post
  | .optional part, post => post none ∧ part.Ensures rules fun value => post (some value)
  | .many part, post =>
    ∃ each, part.Ensures rules each ∧ ∀ values, (∀ value ∈ values, each value) → post values
  | .unless _, post => post ()
  | .located part, post => part.Ensures rules fun value => ∀ extent, post (extent, value)
  | .verbatim _, post => ∀ text, post text
  | .check part accept, post =>
    part.Ensures rules fun value => ∀ result, accept value = .ok result → post result

namespace Ensures

variable {rules : Category → Value → Prop}

theorem mono {α : Type} {part : Peg Category Value Fault α} {post weaker : α → Prop}
    (ensured : part.Ensures rules post) (follows : ∀ value, post value → weaker value) :
    part.Ensures rules weaker := by
  induction part with
  | pure value => exact follows value ensured
  | terminal class_ => exact fun text taken => follows text (ensured text taken)
  | verbatim part ih => exact fun text => follows text (ensured text)
  | rule name => exact fun value holds => follows value (ensured value holds)
  | sequence first second firstIh secondIh =>
    exact firstIh ensured fun f rest => secondIh rest fun value => follows (f value)
  | choice first second firstIh secondIh =>
    exact ⟨firstIh ensured.1 follows, secondIh ensured.2 follows⟩
  | optional part ih => exact ⟨follows none ensured.1, ih ensured.2 fun value => follows (some value)⟩
  | many part ih =>
    obtain ⟨each, copies, whole⟩ := ensured
    exact ⟨each, copies, fun values all => follows values (whole values all)⟩
  | «unless» class_ => exact follows () ensured
  | located part ih => exact ih ensured fun value all extent => follows _ (all extent)
  | check part accept ih =>
    exact ih ensured fun value all result accepted => follows result (all result accepted)

theorem of_forall {α : Type} {post : α → Prop} (all : ∀ value, post value)
    (part : Peg Category Value Fault α) : part.Ensures rules post := by
  induction part with
  | pure value => exact all value
  | terminal class_ => exact fun text _ => all text
  | rule name => exact fun value _ => all value
  | sequence first second firstIh secondIh =>
    exact firstIh fun f => secondIh fun value => all (f value)
  | choice first second firstIh secondIh => exact ⟨firstIh all, secondIh all⟩
  | optional part ih => exact ⟨all none, ih fun value => all (some value)⟩
  | many part ih => exact ⟨fun _ => True, ih fun _ => trivial, fun values _ => all values⟩
  | «unless» class_ => exact all ()
  | located part ih => exact ih fun value extent => all (extent, value)
  | verbatim part ih => exact all
  | check part accept ih => exact ih fun _ result _ => all result

end Ensures

section Combinators

variable {rules : Category → Value → Prop} {α β : Type}

@[simp] theorem ensures_map (f : α → β) (part : Peg Category Value Fault α) (post : β → Prop) :
    (f <$> part).Ensures rules post ↔ part.Ensures rules fun value => post (f value) := Iff.rfl

@[simp] theorem ensures_seq (first : Peg Category Value Fault (α → β))
    (second : Peg Category Value Fault α) (post : β → Prop) :
    (first <*> second).Ensures rules post
      ↔ first.Ensures rules fun f => second.Ensures rules fun value => post (f value) := Iff.rfl

@[simp] theorem ensures_seqLeft (first : Peg Category Value Fault α)
    (second : Peg Category Value Fault β) (post : α → Prop) :
    (first <* second).Ensures rules post
      ↔ first.Ensures rules fun value => second.Ensures rules fun _ => post value := Iff.rfl

@[simp] theorem ensures_seqRight (first : Peg Category Value Fault α)
    (second : Peg Category Value Fault β) (post : β → Prop) :
    (first *> second).Ensures rules post
      ↔ first.Ensures rules fun _ => second.Ensures rules post := Iff.rfl

@[simp] theorem ensures_orElse (first second : Peg Category Value Fault α) (post : α → Prop) :
    (first <|> second).Ensures rules post
      ↔ first.Ensures rules post ∧ second.Ensures rules post := Iff.rfl

end Combinators

namespace Ensures

variable {rules : Category → Value → Prop} {α β γ δ : Type} {part : Peg Category Value Fault α}
  {partB : Peg Category Value Fault β} {partC : Peg Category Value Fault γ} {post each : α → Prop}
  {eachB : β → Prop} {eachC : γ → Prop}

theorem anything : part.Ensures rules fun _ => True := of_forall (fun _ => trivial) part

theorem after {first : Peg Category Value Fault β} (ensured : part.Ensures rules post) :
    (first *> part).Ensures rules post := of_forall (fun _ => ensured) first

theorem before {second : Peg Category Value Fault β} (ensured : part.Ensures rules post) :
    (part <* second).Ensures rules post :=
  ensured.mono fun _ holds => of_forall (fun _ => holds) second

theorem start (ensured : part.Ensures rules each) {f : α → β} {post : β → Prop}
    (holds : ∀ value, each value → post (f value)) : (f <$> part).Ensures rules post :=
  ensured.mono holds

theorem next (ensured : part.Ensures rules each) {first : Peg Category Value Fault (α → β)}
    {post : β → Prop}
    (former : first.Ensures rules fun f => ∀ value, each value → post (f value)) :
    (first <*> part).Ensures rules post :=
  former.mono fun _ holds => ensured.mono holds

theorem map₂ (first : part.Ensures rules each) (second : partB.Ensures rules eachB)
    {f : α → β → γ} {post : γ → Prop}
    (holds : ∀ a, each a → ∀ b, eachB b → post (f a b)) :
    (f <$> part <*> partB).Ensures rules post :=
  second.next (first.start holds)

theorem map₃ (first : part.Ensures rules each) (second : partB.Ensures rules eachB)
    (third : partC.Ensures rules eachC) {f : α → β → γ → δ} {post : δ → Prop}
    (holds : ∀ a, each a → ∀ b, eachB b → ∀ c, eachC c → post (f a b c)) :
    (f <$> part <*> partB <*> partC).Ensures rules post :=
  third.next (map₂ first second holds)

end Ensures

end Peg

/-! ## Soundness -/

theorem Peg.Ensures.tracks {rules : Category → Value → Prop} {α : Type}
    {part : Peg Category Value Fault α} {post : α → Prop} (ensured : part.Ensures rules post)
    (source : List Char) (cursor : Cursor) :
    part.Tracks source (fun name _ _ => rules name) cursor fun _ => post := by
  induction part generalizing cursor with
  | pure value | «unless» class_ => exact ensured
  | terminal class_ => exact fun _ _ _ _ => ensured
  | rule name => exact fun _ _ _ => ensured
  | sequence first second firstIh secondIh =>
    exact (firstIh ensured cursor).mono fun middle f rest => secondIh rest middle
  | choice first second firstIh secondIh =>
    exact ⟨firstIh ensured.1 cursor, secondIh ensured.2 cursor⟩
  | optional part ih => exact ⟨ensured.1, ih ensured.2 cursor⟩
  | many part ih =>
    obtain ⟨each, copies, whole⟩ := ensured
    refine ⟨fun _ values => ∀ value ∈ values, each value, by simp, fun middle values all => ?_,
      fun _ values all => whole values all⟩
    refine (ih copies middle).mono fun _ value holds other member => ?_
    rcases List.mem_append.1 member with earlier | last
    · exact all other earlier
    · exact List.mem_singleton.1 last ▸ holds
  | located part ih => exact (ih ensured _).mono fun _ _ all _ _ _ _ => all _
  | verbatim part ih => exact ih (.of_forall (fun _ => ensured) part) cursor
  | check part accept ih => exact ih ensured cursor

/-- **Soundness.** What is ensured holds of every value that a grammar reads, if the bodies of the
rules ensure what is assumed of the rules. -/
theorem Reads.ensures {grammar : RankedGrammar Category Value Fault}
    {rules : Category → Value → Prop} (filled : ∀ name, (grammar.body name).nullable = false)
    (bodies : ∀ name, (grammar.body name).Ensures rules (rules name)) {α : Type}
    {part : Peg Category Value Fault α} {post : α → Prop} (ensured : part.Ensures rules post)
    {source : List Char} {offset : Nat} {result : Match Fault α} {value : α}
    (reads : Reads grammar part offset (source.drop offset) (some result))
    (accepted : result.value = .ok value) : post value := by
  have tracked := ensured.tracks source (.ofPlace offset)
  obtain ⟨_, _, holds⟩ := reads.tracks filled (fun name => (bodies name).tracks source) result value
    (.ofPlace offset) _ rfl accepted rfl rfl tracked
  exact holds

end TemplateLint.Grammar
