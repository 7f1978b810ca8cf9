import TemplateLint.Proofs.Constructor.Follow
import TemplateLint.Proofs.Constructor.Summary

/-!
# The flow of statements

The flow of every statement matches the paths that are followed (`walkStatement_matches`). Of the
statements only the try statement with a finally block has an argument of its own
(`matches_finishing`): whether the normal end is reached is the same for all bits, so the facts at
the start can be told apart.
-/

namespace TemplateLint.Constructor

open TemplateLint.Syntax

/-! ## The flow of a finally block -/

theorem showsIn_withoutReturns (marks : List Mark) (outcome : Outcome) :
    showsIn (withoutReturns marks) outcome
      ↔ showsIn marks outcome ∧ ∀ after, outcome ≠ .returned after := by
  simp only [showsIn, withoutReturns, List.mem_filter]
  constructor
  · rintro ⟨mark, ⟨member, other⟩, shown⟩
    refine ⟨⟨mark, member, shown⟩, ?_⟩
    rintro after rfl
    cases mark with
    | returned facts => cases other
    | _ => cases shown
  · rintro ⟨⟨mark, member, shown⟩, other⟩
    refine ⟨mark, ⟨member, ?_⟩, shown⟩
    cases mark with
    | returned facts =>
      cases outcome with
      | returned after => exact absurd rfl (other after)
      | _ => cases shown
    | _ => rfl

theorem Flow.Matches.aside {flow : Flow} {facts : Facts} {paths : Paths}
    (known : flow.Matches facts paths) : (flow.aside .unreachable).Matches facts paths.aside := by
  intro outcome
  rcases outcome.ended_or_stops with ⟨bit, rfl⟩ | stops
  · simp [Flow.aside, Paths.aside, Outcome.goesOn]
  · have shown := known outcome
    rw [shows_of_not_goesOn _ stops] at shown ⊢
    simp only [Flow.aside, Paths.aside, stops, and_true]
    exact shown

theorem Flow.Matches.onward {flow : Flow} {facts : Facts} {paths : Paths}
    (known : flow.Matches facts paths) (place : Bool → Outcome) (next : Bool → Prop) :
    (∃ bit, flow.shows (place bit) ∧ next bit)
      ↔ ∃ bit, facts.has bit = true ∧ ∃ after, paths bit (place after) ∧ next after := by
  constructor
  · rintro ⟨after, shown, goes⟩
    obtain ⟨bit, has, comes⟩ := (known (place after)).1 shown
    exact ⟨bit, has, after, comes, goes⟩
  · rintro ⟨bit, has, after, comes, goes⟩
    exact ⟨after, (known (place after)).2 ⟨bit, has, comes⟩, goes⟩

section Finishing

variable {tried body : Flow} {facts thrown : Facts} {block caught last : Paths}
  {finalizer : Facts → Flow} (lasts : ∀ entry, (finalizer entry).Matches entry last)

theorem has_thrown (tries : tried.Matches facts block) (starts : ∀ bit, block bit (.threw bit))
    (bit : Bool) :
    ((observedFacts tried.marks).join facts).has bit = true ↔ tried.shows (.threw bit) := by
  rw [Facts.has_join, Bool.or_eq_true, has_observedFacts]
  refine ⟨?_, .inl⟩
  rintro (seen | has)
  · exact seen
  · exact (tries (.threw bit)).2 ⟨bit, has, starts bit⟩

include lasts

theorem matches_returning (pending : Facts) :
    (if pending.isUnreachable then Flow.stay .unreachable
      else (finalizer pending).andThen fun after => .stop (.returned after)).Matches pending
        (last.andThen (.stop .returned)) := by
  cases reached : pending.isUnreachable with
  | true =>
    have none : pending = .unreachable := by
      rcases pending with ⟨_ | _, _ | _⟩ <;> first | rfl | cases reached
    subst none
    exact Flow.matches_unreachable rfl _
  | false =>
    rw [if_neg (by simp)]
    refine (lasts pending).andThen ?_
    exact Flow.matches_return _

theorem shows_ending (body : Flow) (thrown : Facts) (outcome : Outcome) :
    (if body.out.isUnreachable then (finalizer thrown).aside .unreachable
      else finalizer body.out).shows outcome
      ↔ (∃ bit, body.out.has bit = true ∧ last bit outcome)
        ∨ body.out.isUnreachable = true ∧ ∃ bit, thrown.has bit = true ∧ last.aside bit outcome := by
  cases ends : body.out.isUnreachable with
  | true =>
    rw [if_pos rfl, (lasts thrown).aside outcome]
    simp only [(Facts.isUnreachable_iff _).1 ends, Bool.false_eq_true, false_and, exists_false,
      false_or, true_and]
  | false =>
    rw [if_neg (by simp), lasts body.out outcome]
    simp only [Bool.false_eq_true, false_and, or_false]

theorem shows_finallyFlow (outcome : Outcome) :
    (finallyFlow finalizer thrown body).shows outcome
      ↔ (∃ bit, body.shows (.ended bit) ∧ last bit outcome)
        ∨ (∃ bit, body.shows (.returned bit) ∧ last.andThen (.stop .returned) bit outcome)
        ∨ (body.shows outcome ∧ outcome.goesOn = false ∧ ∀ after, outcome ≠ .returned after)
        ∨ body.out.isUnreachable = true ∧ ∃ bit, thrown.has bit = true ∧ last.aside bit outcome := by
  have returning := matches_returning lasts (returnedFacts body.marks) outcome
  have ending := shows_ending lasts body thrown outcome
  rcases outcome.ended_or_stops with ⟨bit, rfl⟩ | stops
  · refine ending.trans ?_
    simp [Paths.andThen, Paths.stop, Outcome.goesOn]
  · rw [Flow.shows_of_not_goesOn _ stops] at returning ending ⊢
    rw [Flow.shows_of_not_goesOn _ stops]
    simp only [has_returnedFacts] at returning
    simp only [finallyFlow, showsIn_append, showsIn_withoutReturns, returning, ending, stops,
      true_and, Flow.shows]
    rw [or_comm, or_assoc]
    refine or_congr_right ?_
    rw [or_comm, or_comm (a := _ ∧ _), or_assoc]

theorem matches_finishing (tries : tried.Matches facts block)
    (starts : ∀ bit, block bit (.threw bit)) (bodies : body.Matches facts caught)
    (uniform : caught.Uniform) :
    (finallyFlow finalizer ((observedFacts tried.marks).join facts) body).Matches facts
      (.finishing block caught last) := by
  intro outcome
  -- That no path comes to the end is seen from any one of them.
  have entered : (body.out.isUnreachable = true
        ∧ ∃ bit, ((observedFacts tried.marks).join facts).has bit = true ∧ last.aside bit outcome)
      ↔ ∃ bit, facts.has bit = true ∧ (∀ after, ¬ caught bit (.ended after))
        ∧ ∃ thrown, block bit (.threw thrown) ∧ last.aside thrown outcome := by
    simp only [has_thrown tries starts, tries.onward .threw fun bit => last.aside bit outcome]
    constructor
    · rintro ⟨never, bit, has, throws⟩
      refine ⟨bit, has, fun after ends => ?_, throws⟩
      have reached := (bodies (.ended after)).2 ⟨bit, has, ends⟩
      rw [Flow.shows_ended, (Facts.isUnreachable_iff _).1 never] at reached
      cases reached
    · rintro ⟨bit, has, never, throws⟩
      refine ⟨(Facts.isUnreachable_iff _).2 fun after => ?_, bit, has, throws⟩
      rw [← Bool.not_eq_true, ← Flow.shows_ended, bodies (.ended after)]
      rintro ⟨other, _, ends⟩
      exact uniform.never_ended never other after ends
  rw [shows_finallyFlow lasts outcome, entered, bodies.onward .ended, bodies.onward .returned,
    bodies outcome]
  simp only [Paths.finishing, and_or_left, exists_or]
  refine or_congr_right (or_congr_right (or_congr_left ?_))
  constructor
  · rintro ⟨⟨bit, has, goes⟩, free⟩
    exact ⟨bit, has, goes, free⟩
  · rintro ⟨bit, has, goes, free⟩
    exact ⟨⟨bit, has, goes⟩, free⟩

end Finishing

/-! ## The flow of statements -/

mutual

/-- The walk of a statement stands for the paths of the statement as it is read. -/
theorem walkStatement_matches (labels : List String) (here : Path) :
    ∀ (node : Node) (facts : Facts),
      (walkStatement labels here node facts).Matches facts (follow labels here node)
  | ⟨_, form⟩, facts => by
    rw [walkStatement, follow]
    exact (walkForm_matches labels here form facts).afterObserved

theorem walkForm_matches (labels : List String) (here : Path) (form : Form) (facts : Facts) :
    (walkForm labels here form facts).Matches facts (followForm labels here form) := by
  cases form with
  | block body =>
    rw [walkForm, followForm]
    exact walkStatements_matches here .body 0 body facts
  | expressionStatement expression =>
    rw [walkForm, followForm]
    exact walkExpression_matches _ expression facts
  | variableDeclaration declarations kind =>
    rw [walkForm, followForm]
    exact walkDeclarators_matches here 0 declarations facts
  | ifStatement test consequent alternate =>
    rw [walkForm, followForm]
    refine (walkExpression_matches _ test facts).andThen ?_
    exact (walkStatement_matches [] _ consequent _).either
      (walkElse_matches _ alternate _)
  | returnStatement argument =>
    cases argument with
    | none =>
      rw [walkForm, followForm]
      exact Flow.matches_return facts
    | some argument =>
      rw [walkForm, followForm]
      refine (walkExpression_matches _ argument facts).andThen ?_
      exact Flow.matches_returnValue _
  | throwStatement argument =>
    rw [walkForm, followForm]
    exact (walkExpression_matches _ argument facts).andThen (Flow.matches_throw _)
  | breakStatement label | continueStatement label =>
    rw [walkForm, followForm]
    exact Flow.matches_jump _ facts
  | labeledStatement label body =>
    rw [walkForm, followForm]
    split
    · exact walkStatement_matches _ _ body facts
    · exact (walkStatement_matches _ _ body facts).enclose _
  | whileStatement test body =>
    rw [walkForm, followForm, ← Paths.andThen_skip (.continuing _ _)]
    exact matches_runLoop (testFirst_matches (walkExpression_matches _ test)
      (walkStatement_matches [] _ body) _ Flow.matches_stay) facts
  | doWhileStatement body test =>
    rw [walkForm, followForm]
    exact matches_runLoop (testLast_matches (walkExpression_matches _ test)
      (walkStatement_matches [] _ body) _) facts
  | forStatement init test update body =>
    rw [walkForm, followForm]
    refine (walkInit_matches _ init facts).andThen ?_
    exact matches_runLoop (testFirst_matches (walkOptional_matches _ test)
      (walkStatement_matches [] _ body) _ (walkOptional_matches _ update)) _
  | forInStatement left right body | forOfStatement left right body =>
    rw [walkForm, followForm]
    refine (walkExpression_matches _ right facts).andThen ?_
    exact matches_runLoop (untested_matches (walkStatement_matches [] _ body) _) _
  | switchStatement discriminant cases =>
    rw [walkForm, followForm]
    refine (walkExpression_matches _ discriminant facts).andThen ?_
    refine Flow.Matches.skippable (Flow.Matches.enclose _ fun outcome => ?_) _
    have entered := walkCases_matches here 0 cases
      (walkExpression (here.child .discriminant) discriminant facts).out .unreachable outcome
    simpa only [Facts.has_unreachable, Bool.false_eq_true, false_and, exists_false, or_false]
      using entered
  | tryStatement block handler finalizer =>
    have tries := walkStatement_matches [] (here.child .block) block facts
    have starts := follow_starts [] (here.child .block) block
    have bodies := walkHandler_matches (here.child .handler) tries starts
      (follow_kept Paths.Watched.kept [] _ block) handler
    cases finalizer with
    | none =>
      rw [walkForm, followForm]
      exact bodies
    | some finalizer =>
      have uniform := followCaught_kept Paths.Uniform.kept (here.child .handler)
        (follow_kept Paths.Uniform.kept [] (here.child .block) block) handler
      rw [walkForm, followForm]
      exact matches_finishing (walkStatement_matches [] _ finalizer) tries starts bodies uniform
  | _ =>
    simp only [walkForm, followForm]
    exact Flow.matches_stay facts

theorem walkHandler_matches (here : Path) {tried : Flow} {facts : Facts} {block : Paths}
    (tries : tried.Matches facts block) (starts : ∀ bit, block bit (.threw bit))
    (watched : block.Watched) :
    ∀ handler : Option Node,
      (tried.either (walkHandler here handler
          (((observedFacts tried.marks).join facts).join tried.out))).Matches facts
        (followCaught here block handler)
  | none => by
    simp only [walkHandler, followCaught]
    exact tries.either_unreachable
  | some ⟨span, form⟩ => by
    cases form with
    | catchClause param body =>
      simp only [walkHandler, followCaught]
      exact matches_caught tries starts watched (walkStatement_matches [] _ body _)
        (follow_starts _ _ body)
    | _ =>
      simp only [walkHandler, followCaught]
      exact tries.either_unreachable

theorem walkStatements_matches (here : Path) (field : Field) (index : Nat) :
    ∀ (nodes : List Node) (facts : Facts),
      (walkStatements here field index nodes facts).Matches facts
        (followAll here field index nodes)
  | [], facts => by
    rw [walkStatements, followAll]
    exact Flow.matches_stay facts
  | node :: rest, facts => by
    rw [walkStatements, followAll]
    exact (walkStatement_matches _ _ node facts).andThen
      (walkStatements_matches here field (index + 1) rest _)

theorem walkElse_matches (here : Path) :
    ∀ (node? : Option Node) (facts : Facts),
      (walkElse here node? facts).Matches facts (follow? here node?)
  | none, facts => by
    rw [walkElse, follow?]
    exact Flow.matches_stay facts
  | some node, facts => by
    rw [walkElse, follow?]
    exact walkStatement_matches _ _ node facts

theorem walkCases_matches (here : Path) (index : Nat) :
    ∀ (cases : List Node) (entry fall : Facts),
      (walkCases here index cases entry fall).MatchesFrom entry fall
        (followFromAny here index cases) (followThrough here index cases)
  | [], entry, fall => by
    rw [walkCases, followFromAny, followThrough]
    intro outcome
    rw [Flow.matches_stay fall outcome]
    simp only [Paths.nowhere, and_false, exists_false, false_or]
  | ⟨span, form⟩ :: rest, entry, fall => by
    cases form with
    | switchCase test consequent =>
      rw [walkCases, followFromAny, followThrough]
      exact Flow.MatchesFrom.switchCase (walkOptional_matches _ test entry)
        (walkStatements_matches _ _ 0 consequent _)
        (walkCases_matches here (index + 1) rest entry _)
    | _ =>
      simp only [walkCases, followFromAny, followThrough]
      exact walkCases_matches here (index + 1) rest entry fall

end

end TemplateLint.Constructor
