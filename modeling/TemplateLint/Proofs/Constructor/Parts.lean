import TemplateLint.Proofs.Constructor.Evaluation

/-!
# The parts of statements

How the flows of statements match their paths, given that those of their parts do.

A catch block is also entered from the end of its try block, where no exception is thrown. It makes
no difference, because a bit at the end of the try block was there at its start, or was set by a
call of `super()` after which an exception may have been thrown (`matches_caught`).
-/

namespace TemplateLint.Constructor

open TemplateLint.Syntax

/-! ## Expressions in statements -/

theorem walkExpression_matches (here : Path) (node : Node) (facts : Facts) :
    (walkExpression here node facts).Matches facts (evaluate here node) :=
  (walked_of_view _ node.isView_tree).flow here facts

theorem evaluate_watched (here : Path) (node : Node) : (evaluate here node).Watched :=
  (walked_of_view _ node.isView_tree).watched here

theorem walkOptional_matches (here : Path) (node? : Option Node) (facts : Facts) :
    (walkOptional here node? facts).Matches facts (evaluate? here node?) := by
  cases node? with
  | none => exact Flow.matches_stay facts
  | some node => exact walkExpression_matches here node facts

/-! ## Loops -/

theorem Flow.matches_guard (condition : Bool) (facts : Facts) :
    (Flow.stay (if condition then facts else .unreachable)).Matches facts (.guard condition) := by
  cases condition with
  | true =>
    intro outcome
    rw [if_pos rfl, matches_stay facts outcome]
    simp only [Paths.skip, Paths.stop, Paths.guard, true_and]
  | false =>
    intro outcome
    rcases outcome.ended_or_stops with ⟨bit, rfl⟩ | stops
    · simp [stay, Paths.guard]
    · simp [shows_of_not_goesOn _ stops, stay, Paths.guard]

theorem splitOnTest_eq (test? : Option Node) (facts : Facts) :
    splitOnTest test? facts
      = ⟨if decidedTest? test? != some true then facts else .unreachable,
        if decidedTest? test? != some false then facts else .unreachable⟩ := by
  rcases test? with _ | ⟨span, form⟩
  · rfl
  · cases form with
    | literal value raw =>
      simp only [splitOnTest, decidedTest?]
      by_cases truthy : value.isTruthy = true <;> simp [truthy]
    | _ => rfl

theorem matches_leave (test? : Option Node) (facts : Facts) :
    (Flow.stay (splitOnTest test? facts).leave).Matches facts (.leaving test?) := by
  rw [splitOnTest_eq]
  exact Flow.matches_guard _ facts

theorem matches_enter (test? : Option Node) (facts : Facts) :
    (Flow.stay (splitOnTest test? facts).enter).Matches facts (.entering test?) := by
  rw [splitOnTest_eq]
  exact Flow.matches_guard _ facts

section Rounds

variable {test? : Option Node} {test body update : Facts → Flow} {tests bodies updates : Paths}
  (tested : ∀ facts, (test facts).Matches facts tests)
  (runs : ∀ facts, (body facts).Matches facts bodies)

include tested runs in
theorem testFirst_matches (target : Target)
    (updated : ∀ facts, (update facts).Matches facts updates) (entry : Facts) :
    (testFirst target test? test body update entry).Matches entry
      (tests.andThen (.andThen (.entering test?) (.andThen (.continuing target bodies) updates)))
      (tests.andThen (.leaving test?)) := by
  have leaves : ((test entry).andThen fun after =>
      .stay (splitOnTest test? after).leave).Matches entry (tests.andThen (.leaving test?)) :=
    (tested entry).andThen (matches_leave test? _)
  have backs : ((test entry).andThen fun after =>
      (Flow.stay (splitOnTest test? after).enter).andThen fun enter =>
        (Flow.resume target (body enter)).andThen update).Matches entry
      (tests.andThen (.andThen (.entering test?) (.andThen (.continuing target bodies) updates))) :=
    (tested entry).andThen ((matches_enter test? _).andThen
      (((runs _).resume target).andThen (updated _)))
  refine Round.matches_of_flows leaves backs rfl rfl fun outcome => ?_
  simp only [testFirst, Flow.andThen, Flow.stay, Flow.resume, showsIn_append, showsIn_nil,
    or_false, false_or, ← or_assoc, or_self]

include tested runs in
theorem testLast_matches (target : Target) (entry : Facts) :
    (testLast target test? body test entry).Matches entry
      (.andThen (.andThen (.continuing target bodies) tests) (.entering test?))
      (.andThen (.andThen (.continuing target bodies) tests) (.leaving test?)) := by
  have round : ((Flow.resume target (body entry)).andThen test).Matches entry
      (.andThen (.continuing target bodies) tests) := ((runs entry).resume target).andThen (tested _)
  have leaves : (((Flow.resume target (body entry)).andThen test).andThen fun after =>
      .stay (splitOnTest test? after).leave).Matches entry _ :=
    round.andThen (matches_leave test? _)
  have backs : (((Flow.resume target (body entry)).andThen test).andThen fun after =>
      .stay (splitOnTest test? after).enter).Matches entry _ :=
    round.andThen (matches_enter test? _)
  refine Round.matches_of_flows leaves backs rfl rfl fun outcome => ?_
  simp only [testLast, Flow.andThen, Flow.stay, Flow.resume, List.append_nil, or_self]

include runs in
theorem untested_matches (target : Target) (entry : Facts) :
    (untested target body entry).Matches entry (.continuing target bodies) .skip := by
  refine Round.matches_of_flows (Flow.matches_stay entry) ((runs entry).resume target) rfl rfl
    fun outcome => ?_
  simp only [untested, Flow.stay, Flow.resume, showsIn_nil, false_or]

end Rounds

/-! ## Exceptions -/

/-- What a catch block is entered with is all that an exception in the try block has seen: the
facts at the start of the try block are seen by the exception before it, and those at its end
by the exception after the last change. -/
theorem has_caught {tried : Flow} {facts : Facts} {block : Paths}
    (tries : tried.Matches facts block) (starts : ∀ bit, block bit (.threw bit))
    (watched : block.Watched) (bit : Bool) :
    (((observedFacts tried.marks).join facts).join tried.out).has bit = true
      ↔ ∃ before, facts.has before = true ∧ block before (.threw bit) := by
  rw [← tries (.threw bit), Facts.has_join, Facts.has_join, Bool.or_eq_true, Bool.or_eq_true,
    has_observedFacts]
  constructor
  · rintro ((seen | has) | ended)
    · exact seen
    · exact (tries (.threw bit)).2 ⟨bit, has, starts bit⟩
    · obtain ⟨before, has, ends⟩ := (tries (.ended bit)).1 ended
      refine (tries (.threw bit)).2 ⟨before, has, ?_⟩
      rcases watched before _ ends (by simp) with same | thrown
      · have kept : bit = before := same
        exact kept ▸ starts bit
      · exact thrown
  · exact fun seen => .inl (.inl seen)

/-- A catch clause is entered from the facts before, in and after its try block: any statement of it
may throw. -/
theorem matches_caught {tried handled : Flow} {facts : Facts} {block handler : Paths}
    (tries : tried.Matches facts block) (starts : ∀ bit, block bit (.threw bit))
    (watched : block.Watched)
    (handles : handled.Matches (((observedFacts tried.marks).join facts).join tried.out) handler)
    (handlerStarts : ∀ bit, handler bit (.threw bit)) :
    (tried.either handled).Matches facts (.catching block handler) := by
  have handledPaths : ∀ outcome, handled.shows outcome ↔ ∃ before, facts.has before = true
      ∧ ∃ thrown, block before (.threw thrown) ∧ handler thrown outcome := by
    intro outcome
    rw [handles outcome]
    constructor
    · rintro ⟨thrown, seen, goes⟩
      obtain ⟨before, has, throws⟩ := (has_caught tries starts watched thrown).1 seen
      exact ⟨before, has, thrown, throws, goes⟩
    · rintro ⟨before, has, thrown, throws, goes⟩
      exact ⟨thrown, (has_caught tries starts watched thrown).2 ⟨before, has, throws⟩, goes⟩
  intro outcome
  simp only [Paths.catching, and_or_left, exists_or, ← handledPaths outcome]
  cases outcome with
  | threw bit =>
    -- exceptions of the try block are caught, but the handler may throw at its start
    have none : ¬ ∃ before, facts.has before = true ∧ block before (.threw bit)
        ∧ ∀ thrown, Outcome.threw bit ≠ .threw thrown := by
      rintro ⟨_, _, _, other⟩
      exact other bit rfl
    simp only [none, or_false]
    constructor
    · intro seen
      rcases (showsIn_append _ _ _).1 seen with seen | seen
      · obtain ⟨before, has, throws⟩ := (tries (.threw bit)).1 seen
        exact (handledPaths (.threw bit)).2 ⟨before, has, bit, throws, handlerStarts bit⟩
      · exact seen
    · exact fun seen => (showsIn_append _ _ _).2 (.inr seen)
  | ended bit =>
    have ends := tries (.ended bit)
    rw [Flow.shows_ended] at ends
    simp only [Flow.shows_ended, Flow.either, Facts.has_join, Bool.or_eq_true, ends, ne_eq,
      reduceCtorEq, not_false_eq_true, implies_true, and_true]
    exact or_comm
  | _ =>
    rw [Flow.shows_of_not_goesOn _ rfl, Flow.shows_of_not_goesOn _ rfl, Flow.either,
      showsIn_append, ← Flow.shows_of_not_goesOn tried rfl, tries]
    simp only [ne_eq, reduceCtorEq, not_false_eq_true, implies_true, and_true]
    exact or_comm

/-! ## Switches -/

/-- A switch shows what happens from the case that is entered, and what happens from the
case before it that falls through. -/
def Flow.MatchesFrom (flow : Flow) (entry fall : Facts) (enters falls : Paths) : Prop :=
  ∀ outcome, flow.shows outcome
    ↔ (∃ bit, entry.has bit = true ∧ enters bit outcome)
      ∨ ∃ bit, fall.has bit = true ∧ falls bit outcome

theorem Flow.MatchesFrom.consequent {taken rest : Flow} {entry fall : Facts}
    {consequent enters falls : Paths} (takes : taken.Matches fall consequent)
    (later : rest.MatchesFrom entry taken.out enters falls) :
    (taken.andThen fun _ => rest).MatchesFrom entry fall enters (consequent.andThen falls) := by
  have ends : ∀ outcome, (∃ bit, taken.out.has bit = true ∧ falls bit outcome)
      ↔ ∃ bit, fall.has bit = true ∧ ∃ between, consequent bit (.ended between)
        ∧ falls between outcome := by
    intro outcome
    constructor
    · rintro ⟨between, reached, goes⟩
      obtain ⟨bit, has, ends⟩ := (takes (.ended between)).1 reached
      exact ⟨bit, has, between, ends, goes⟩
    · rintro ⟨bit, has, between, ends, goes⟩
      exact ⟨between, (takes (.ended between)).2 ⟨bit, has, ends⟩, goes⟩
  intro outcome
  have after := later outcome
  rw [ends] at after
  rcases outcome.ended_or_stops with ⟨bit, rfl⟩ | stops
  · simp only [Paths.andThen, Outcome.goesOn, Bool.true_eq_false, and_false, or_false]
    exact after
  · have before := takes outcome
    rw [Flow.shows_of_not_goesOn _ stops] at before after ⊢
    simp only [Flow.andThen, showsIn_append, Paths.andThen, stops, and_true, and_or_left,
      exists_or]
    rw [before, after, or_comm, or_assoc]

theorem Flow.MatchesFrom.switchCase {tested taken rest : Flow} {entry fall : Facts}
    {test consequent enters falls : Paths} (tests : tested.Matches entry test)
    (takes : taken.Matches (entry.join fall) consequent)
    (later : rest.MatchesFrom entry taken.out enters falls) :
    ((tested.aside fall).andThen fun _ => taken.andThen fun _ => rest).MatchesFrom entry fall
      (.either test.aside (.either (consequent.andThen falls) enters))
      (consequent.andThen falls) := by
  intro outcome
  have split : (∃ bit, (entry.join fall).has bit = true ∧ (consequent.andThen falls) bit outcome)
      ↔ (∃ bit, entry.has bit = true ∧ (consequent.andThen falls) bit outcome)
        ∨ ∃ bit, fall.has bit = true ∧ (consequent.andThen falls) bit outcome := by
    simp only [Facts.has_join, Bool.or_eq_true, or_and_right, exists_or]
  have rest := later.consequent takes outcome
  rw [split] at rest
  simp only [Paths.either, and_or_left, exists_or]
  rcases outcome.ended_or_stops with ⟨bit, rfl⟩ | stops
  · rw [Flow.shows_ended] at rest ⊢
    simp only [Paths.aside, Outcome.goesOn, Bool.true_eq_false, and_false, exists_false, false_or]
    refine rest.trans ?_
    rw [or_left_comm, or_assoc]
  · have before := tests outcome
    rw [Flow.shows_of_not_goesOn _ stops] at before rest ⊢
    simp only [Flow.andThen, Flow.aside, showsIn_append, Paths.aside, stops, and_true] at rest ⊢
    rw [before, rest]
    simp only [or_assoc, or_left_comm]

theorem Flow.Matches.skippable {flow : Flow} {facts : Facts} {paths : Paths}
    (known : flow.Matches facts paths) (blocked : Bool) :
    (if blocked then flow else ⟨flow.out.join facts, flow.marks⟩).Matches facts
      (.either (.guard (!blocked)) paths) := by
  have both := (Flow.matches_guard (!blocked) facts).either known
  intro outcome
  rw [← both outcome]
  cases blocked with
  | true =>
    rcases outcome.ended_or_stops with ⟨bit, rfl⟩ | stops
    · simp [Flow.either, Flow.stay]
    · simp [Flow.shows_of_not_goesOn _ stops, Flow.either, Flow.stay]
  | false =>
    rcases outcome.ended_or_stops with ⟨bit, rfl⟩ | stops
    · simp [Flow.either, Flow.stay, or_comm]
    · simp [Flow.shows_of_not_goesOn _ stops, Flow.either, Flow.stay]

end TemplateLint.Constructor
