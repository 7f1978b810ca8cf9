import Mathlib.Logic.Relation
import TemplateLint.Proofs.Grammar.Progress

/-!
# Faults of a match and of its parts

A call that matches, made by a call that matches, is a part of its match (`Retains`). A match with a
part that has a fault has a fault itself (`Call.Refused.of_within`). And every fault of a match is
raised by a check among its parts, on a value that was read without a fault
(`Reads.exists_raised`).
-/

namespace TemplateLint.Grammar

variable {Category Value Fault : Type}

namespace Call

variable (grammar : RankedGrammar Category Value Fault) (source : List Char)

/-- The expression of a call is read at its offset. -/
def Matches (call : Call Category Value Fault) : Prop :=
  ∃ result, Reads grammar call.part call.offset (source.drop call.offset) (some result)

/-- What the call matches has a fault. -/
def Refused (fault : Fault) (call : Call Category Value Fault) : Prop :=
  ∃ result, Reads grammar call.part call.offset (source.drop call.offset) (some result)
    ∧ result.value = .error fault

/-- The call is a check, and it raises the fault itself. -/
def Raises (fault : Fault) (call : Call Category Value Fault) : Prop :=
  match call.part with
  | .check part accept => ∃ result value,
    Reads grammar part call.offset (source.drop call.offset) (some result)
      ∧ result.value = .ok value ∧ accept value = .error fault
  | _ => False

end Call

/-- The match of a call is a part of the match of its caller. -/
def Retains (grammar : RankedGrammar Category Value Fault) (source : List Char)
    (caller callee : Call Category Value Fault) : Prop :=
  Invokes grammar source caller callee ∧ callee.Matches grammar source

/-- The match of a call is a part, at any depth, of the match of another one. -/
def Call.Within (grammar : RankedGrammar Category Value Fault) (source : List Char)
    (part whole : Call Category Value Fault) : Prop :=
  Relation.ReflTransGen (Retains grammar source) whole part

variable {grammar : RankedGrammar Category Value Fault} {source : List Char}

/-! ## Faults of parts -/

section Append

variable {α β γ : Type} (f : α → β → γ) {fault : Fault}

theorem Match.append_error {first : Match Fault α} (faulty : first.value = .error fault)
    (second : Match Fault β) : (first.append f second).value = .error fault := by
  simp only [Match.append, faulty]
  rfl

theorem Match.append_ok_error {first : Match Fault α} {value : α}
    (accepted : first.value = .ok value) {second : Match Fault β}
    (faulty : second.value = .error fault) : (first.append f second).value = .error fault := by
  simp only [Match.append, accepted, faulty]
  rfl

theorem Match.exists_append_error (first : Match Fault α) {second : Match Fault β}
    (faulty : second.value = .error fault) :
    ∃ fault', (first.append f second).value = .error fault' := by
  cases former : first.value with
  | error fault' => exact ⟨fault', append_error f former second⟩
  | ok value => exact ⟨fault, append_ok_error f former faulty⟩

theorem Match.error_or_of_append {first : Match Fault α} {second : Match Fault β}
    (faulty : (first.append f second).value = .error fault) :
    first.value = .error fault ∨ second.value = .error fault := by
  simp only [Match.append] at faulty
  cases former : first.value with
  | error fault' =>
    rw [former] at faulty
    cases faulty
    exact .inl rfl
  | ok value =>
    cases latter : second.value with
    | error fault' =>
      rw [former, latter] at faulty
      cases faulty
      exact .inr rfl
    | ok value =>
      rw [former, latter] at faulty
      cases faulty

theorem eq_error_of_map {f : α → β} {result : Except Fault α}
    (faulty : result.map f = .error fault) : result = .error fault := by
  cases result with
  | error fault' =>
    cases faulty
    rfl
  | ok value => cases faulty

end Append

/-- **A fault of a part is not lost.** -/
theorem Retains.refused {caller callee : Call Category Value Fault} {fault : Fault}
    (retained : Retains grammar source caller callee) (matched : caller.Matches grammar source)
    (refused : callee.Refused grammar source fault) :
    ∃ fault', caller.Refused grammar source fault' := by
  obtain ⟨whole, reads⟩ := matched
  obtain ⟨part, readsPart, faulty⟩ := refused
  cases retained.1 with
  | body name offset => exact ⟨fault, part, .rule readsPart, faulty⟩
  | first first second offset =>
    rcases reads.premises with ⟨left, inner, readsFirst, readsSecond, same⟩ | ⟨-, same⟩
    · cases readsPart.unique readsFirst
      cases inner with
      | none => cases same
      | some right =>
        cases same
        exact ⟨fault, _, reads, Match.append_error _ faulty right⟩
    · cases same
  | second second read =>
    rw [← List.drop_drop] at readsPart
    obtain ⟨fault', faulty⟩ := Match.exists_append_error _ _ faulty
    exact ⟨fault', _, .sequence read readsPart, faulty⟩
  | alternative first second offset => exact ⟨fault, part, .choice readsPart, faulty⟩
  | otherwise second fails => exact ⟨fault, part, .otherwise fails readsPart, faulty⟩
  | optional inner offset =>
    exact ⟨fault, _, .optional readsPart, congrArg (Except.map some) faulty⟩
  | copy inner offset =>
    rcases reads.premises with ⟨readsNone, -⟩ | ⟨first, rest, readsFirst, readsRest, same⟩
    · cases readsPart.unique readsNone
    · cases readsPart.unique readsFirst
      cases same
      exact ⟨fault, _, reads, Match.append_error _ faulty rest⟩
  | again read =>
    rw [← List.drop_drop] at readsPart
    obtain ⟨fault', faulty⟩ := Match.exists_append_error _ _ faulty
    exact ⟨fault', _, .manyNext read readsPart, faulty⟩
  | located inner offset =>
    exact ⟨fault, _, .located readsPart, congrArg (Except.map _) faulty⟩
  | verbatim inner offset =>
    exact ⟨fault, _, .verbatim readsPart, congrArg (Except.map _) faulty⟩
  | check inner accept offset =>
    exact ⟨fault, _, .check readsPart, congrArg (Except.bind · accept) faulty⟩

/-- If a part of a match is refused, so is the whole. -/
theorem Call.Refused.of_within {whole part : Call Category Value Fault} {fault : Fault}
    (within : part.Within grammar source whole) (matched : whole.Matches grammar source)
    (refused : part.Refused grammar source fault) :
    ∃ fault', whole.Refused grammar source fault' := by
  induction within using Relation.ReflTransGen.head_induction_on with
  | refl => exact ⟨fault, refused⟩
  | head retained within ih =>
    obtain ⟨fault', refused⟩ := ih retained.2
    exact retained.refused matched refused

/-! ## Where faults are raised -/

/-- Every check in an expression, down to the rules that it names, is allowed. -/
def Peg.OnlyChecks
    (allowed : (α β : Type) → Peg Category Value Fault α → (α → Except Fault β) → Prop)
    {α : Type} : Peg Category Value Fault α → Prop
  | .pure _ | .terminal _ | .rule _ | .unless _ => True
  | .sequence first second => first.OnlyChecks allowed ∧ second.OnlyChecks allowed
  | .choice first second => first.OnlyChecks allowed ∧ second.OnlyChecks allowed
  | .optional part | .many part | .located part | .verbatim part => part.OnlyChecks allowed
  | .check part accept => allowed _ _ part accept ∧ part.OnlyChecks allowed

/-- There is no check in an expression, down to the rules that it names. -/
def Peg.isUnchecked {α : Type} : Peg Category Value Fault α → Bool
  | .pure _ | .terminal _ | .rule _ | .unless _ => true
  | .sequence first second => first.isUnchecked && second.isUnchecked
  | .choice first second => first.isUnchecked && second.isUnchecked
  | .optional part | .many part | .located part | .verbatim part => part.isUnchecked
  | .check .. => false

variable {allowed : (α β : Type) → Peg Category Value Fault α → (α → Except Fault β) → Prop}

theorem Peg.onlyChecks_of_isUnchecked {α : Type} {part : Peg Category Value Fault α}
    (unchecked : part.isUnchecked = true) : part.OnlyChecks allowed := by
  induction part with
  | pure value | terminal class_ | rule name | «unless» class_ => trivial
  | sequence first second ihFirst ihSecond | choice first second ihFirst ihSecond =>
    obtain ⟨former, latter⟩ := Bool.and_eq_true_iff.1 unchecked
    exact ⟨ihFirst former, ihSecond latter⟩
  | optional part ih | many part ih | located part ih | verbatim part ih => exact ih unchecked
  | check part accept ih => cases unchecked

/-- The fault is raised by an allowed check in the match of a call. -/
def RaisedWithin (grammar : RankedGrammar Category Value Fault) (source : List Char)
    (allowed : (α β : Type) → Peg Category Value Fault α → (α → Except Fault β) → Prop)
    (fault : Fault) (call : Call Category Value Fault) : Prop :=
  ∃ (α β : Type) (part : Peg Category Value Fault α) (accept : α → Except Fault β) (offset : Nat),
    allowed α β part accept ∧ Call.Within grammar source ⟨.check part accept, offset⟩ call
      ∧ Call.Raises grammar source fault ⟨.check part accept, offset⟩

theorem Retains.raisedWithin {caller callee : Call Category Value Fault} {fault : Fault}
    (retained : Retains grammar source caller callee)
    (raised : RaisedWithin grammar source allowed fault callee) :
    RaisedWithin grammar source allowed fault caller := by
  obtain ⟨α, β, part, accept, offset, allows, within, raises⟩ := raised
  exact ⟨α, β, part, accept, offset, allows, .head retained within, raises⟩

/-- **Every fault is raised by a check whose match is a part.** The induction is on the reading; the
text in it is the one that remains of the source at the offset. -/
theorem Reads.exists_raised (bodies : ∀ name, (grammar.body name).OnlyChecks allowed) {α : Type}
    {part : Peg Category Value Fault α} {offset : Nat} {text : List Char}
    {outcome : Option (Match Fault α)} (reads : Reads grammar part offset text outcome)
    (only : part.OnlyChecks allowed) (here : text = source.drop offset) {fault : Fault} :
    ∀ result, outcome = some result → result.value = .error fault →
      RaisedWithin grammar source allowed fault ⟨part, offset⟩ := by
  induction reads with
  | pure value | manyStop inner ih =>
    rintro _ ⟨⟩ ⟨⟩
  | terminal class_ =>
    intro result found faulty
    obtain ⟨width, -, rfl⟩ := Option.map_eq_some_iff.1 found
    cases faulty
  | «unless» class_ =>
    intro result found faulty
    split at found
    · cases found
    · cases found
      cases faulty
  | sequenceFails former ih => rintro _ ⟨⟩
  | @rule offset text name outcome inner ih =>
    rintro result rfl faulty
    subst here
    exact Retains.raisedWithin ⟨.body name offset, result, inner⟩
      (ih (bodies name) rfl result rfl faulty)
  | @sequence _ _ offset text first second left outcome former latter ihFormer ihLatter =>
    intro result found faulty
    obtain ⟨right, rfl, rfl⟩ := Option.map_eq_some_iff.1 found
    subst here
    rcases Match.error_or_of_append _ faulty with faulty | faulty
    · exact Retains.raisedWithin ⟨.first first second offset, left, former⟩
        (ihFormer only.1 rfl left rfl faulty)
    · rw [List.drop_drop] at latter ihLatter
      exact Retains.raisedWithin ⟨.second second former, right, latter⟩
        (ihLatter only.2 rfl right rfl faulty)
  | @choice _ offset text first second result former ih =>
    rintro _ ⟨⟩ faulty
    subst here
    exact Retains.raisedWithin ⟨.alternative first second offset, result, former⟩
      (ih only.1 rfl result rfl faulty)
  | @otherwise _ offset text first second outcome former latter ihFormer ihLatter =>
    rintro result rfl faulty
    subst here
    exact Retains.raisedWithin ⟨.otherwise second former, result, latter⟩
      (ihLatter only.2 rfl result rfl faulty)
  | @optional _ offset text part outcome inner ih =>
    rintro _ ⟨⟩ faulty
    subst here
    cases outcome with
    | none => cases faulty
    | some result =>
      exact Retains.raisedWithin ⟨.optional part offset, result, inner⟩
        (ih only rfl result rfl (eq_error_of_map faulty))
  | @manyNext _ offset text part first rest former latter ihFormer ihLatter =>
    rintro _ ⟨⟩ faulty
    subst here
    rcases Match.error_or_of_append _ faulty with faulty | faulty
    · exact Retains.raisedWithin ⟨.copy part offset, first, former⟩
        (ihFormer only rfl first rfl faulty)
    · rw [List.drop_drop] at latter ihLatter
      exact Retains.raisedWithin ⟨.again former, rest, latter⟩
        (ihLatter only rfl rest rfl faulty)
  | @located _ offset text part outcome inner ih =>
    intro _ found faulty
    obtain ⟨result, rfl, rfl⟩ := Option.map_eq_some_iff.1 found
    subst here
    exact Retains.raisedWithin ⟨.located part offset, result, inner⟩
      (ih only rfl result rfl (eq_error_of_map faulty))
  | @verbatim _ offset text part outcome inner ih =>
    intro _ found faulty
    obtain ⟨result, rfl, rfl⟩ := Option.map_eq_some_iff.1 found
    subst here
    exact Retains.raisedWithin ⟨.verbatim part offset, result, inner⟩
      (ih only rfl result rfl (eq_error_of_map faulty))
  | @check α β offset text part accept outcome inner ih =>
    intro _ found faulty
    obtain ⟨result, rfl, rfl⟩ := Option.map_eq_some_iff.1 found
    subst here
    cases read : result.value with
    | error fault' =>
      rw [read] at faulty
      cases faulty
      exact Retains.raisedWithin ⟨.check part accept offset, result, inner⟩
        (ih only.2 rfl result rfl read)
    | ok value =>
      rw [read] at faulty
      exact ⟨α, β, part, accept, offset, only.1, .refl, result, value, inner, read, faulty⟩

end TemplateLint.Grammar
