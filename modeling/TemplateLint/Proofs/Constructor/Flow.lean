import TemplateLint.Proofs.Constructor.Paths

/-!
# Flows and paths

A flow matches some paths if, for all facts it is started with, it shows (`Flow.shows`) exactly the
outcomes of the paths that start with one of these facts (`Flow.Matches`).

A loop is the one case with an argument of its own (`matches_runLoop`): the facts at its entry grow
with every round, and there are two of them, so the last round is entered with all that some number
of rounds can bring about.
-/

namespace TemplateLint.Constructor

open TemplateLint.Syntax

/-! ## Facts as sets of bits -/

namespace Facts

/-- The facts admit a bit. -/
def has (facts : Facts) : Bool → Bool
  | true => facts.called
  | false => facts.notCalled

@[simp] theorem has_unreachable (bit : Bool) : unreachable.has bit = false := by
  cases bit <;> rfl

@[simp] theorem has_start (bit : Bool) : start.has bit = !bit := by
  cases bit <;> rfl

@[simp] theorem has_afterCall (bit : Bool) : afterCall.has bit = bit := by
  cases bit <;> rfl

@[simp] theorem has_join (left right : Facts) (bit : Bool) :
    (left.join right).has bit = (left.has bit || right.has bit) := by
  cases bit <;> rfl

theorem isUnreachable_iff (facts : Facts) :
    facts.isUnreachable = true ↔ ∀ bit, facts.has bit = false := by
  simp [isUnreachable, has]

theorem not_isUnreachable_iff (facts : Facts) :
    facts.isUnreachable = false ↔ ∃ bit, facts.has bit = true := by
  rcases facts with ⟨_ | _, _ | _⟩ <;> simp [isUnreachable, has]

theorem has_foldl_join (list : List Facts) (facts : Facts) (bit : Bool) :
    (list.foldl join facts).has bit = true
      ↔ facts.has bit = true ∨ ∃ other ∈ list, other.has bit = true := by
  induction list generalizing facts with
  | nil => simp
  | cons first rest ih =>
    rw [List.foldl_cons, ih]
    simp only [has_join, Bool.or_eq_true, List.mem_cons, exists_eq_or_imp, or_assoc]

theorem has_joinAll (list : List Facts) (bit : Bool) :
    (joinAll list).has bit = true ↔ ∃ facts ∈ list, facts.has bit = true := by
  rw [joinAll, has_foldl_join]
  simp

/-- The number of bits that are admitted. It bounds the rounds of a loop. -/
def size (facts : Facts) : Nat := facts.notCalled.toNat + facts.called.toNat

theorem has_of_size {facts : Facts} (full : 2 ≤ facts.size) (bit : Bool) :
    facts.has bit = true := by
  rcases facts with ⟨_ | _, _ | _⟩ <;> cases bit <;> simp_all [size, has]

theorem size_lt_of_subset {left right : Facts}
    (subset : ∀ bit, left.has bit = true → right.has bit = true) (differ : right ≠ left) :
    left.size < right.size := by
  have first := subset false
  have second := subset true
  rcases left with ⟨_ | _, _ | _⟩ <;> rcases right with ⟨_ | _, _ | _⟩ <;>
    simp_all [size, has]

end Facts

/-! ## What flows show -/

/-- The outcomes that a mark stands for. -/
def Mark.shows : Mark → Outcome → Prop
  | .returned facts, .returned bit => facts.has bit = true
  | .jumped jump facts, .jumped taken bit => jump = taken ∧ facts.has bit = true
  | .observed facts, .threw bit => facts.has bit = true
  | .called site facts, .met reached bit => site = reached ∧ facts.has bit = true
  | _, _ => False

def showsIn (marks : List Mark) (outcome : Outcome) : Prop := ∃ mark ∈ marks, mark.shows outcome

/-- The outcomes that a flow stands for: its facts for the normal end, its marks for all else. -/
def Flow.shows (flow : Flow) : Outcome → Prop
  | .ended bit => flow.out.has bit = true
  | outcome => showsIn flow.marks outcome

@[simp] theorem showsIn_nil (outcome : Outcome) : ¬ showsIn [] outcome := by
  rintro ⟨mark, member, _⟩
  cases member

@[simp] theorem showsIn_cons (mark : Mark) (marks : List Mark) (outcome : Outcome) :
    showsIn (mark :: marks) outcome ↔ mark.shows outcome ∨ showsIn marks outcome := by
  simp [showsIn]

@[simp] theorem showsIn_append (first second : List Mark) (outcome : Outcome) :
    showsIn (first ++ second) outcome ↔ showsIn first outcome ∨ showsIn second outcome := by
  simp [showsIn, or_and_right, exists_or]

@[simp] theorem Flow.shows_ended (flow : Flow) (bit : Bool) :
    flow.shows (.ended bit) ↔ flow.out.has bit = true := Iff.rfl

theorem Flow.shows_of_not_goesOn (flow : Flow) {outcome : Outcome}
    (stops : outcome.goesOn = false) : flow.shows outcome ↔ showsIn flow.marks outcome := by
  cases outcome with
  | ended bit => cases stops
  | _ => exact Iff.rfl

theorem Outcome.ended_or_stops (outcome : Outcome) :
    (∃ bit, outcome = .ended bit) ∨ outcome.goesOn = false := by
  cases outcome with
  | ended bit => exact .inl ⟨bit, rfl⟩
  | _ => exact .inr rfl

theorem has_arrivals (target : Target) (continues : Bool) (marks : List Mark) (bit : Bool) :
    (Facts.joinAll (marks.filterMap (target.arrival? continues))).has bit = true
      ↔ ∃ jump, showsIn marks (.jumped jump bit) ∧ target.catches jump = true
        ∧ jump.continues = continues := by
  simp only [Facts.has_joinAll, List.mem_filterMap, showsIn]
  constructor
  · rintro ⟨facts, ⟨mark, member, arrives⟩, has⟩
    cases mark with
    | jumped jump before =>
      simp only [Target.arrival?, Option.ite_none_right_eq_some, Bool.and_eq_true,
        beq_iff_eq, Option.some.injEq] at arrives
      obtain ⟨⟨caught, direction⟩, rfl⟩ := arrives
      exact ⟨jump, ⟨_, member, rfl, has⟩, caught, direction⟩
    | _ => cases arrives
  · rintro ⟨jump, ⟨mark, member, shown⟩, caught, direction⟩
    cases mark with
    | jumped taken facts =>
      obtain ⟨rfl, has⟩ := shown
      refine ⟨facts, ⟨_, member, ?_⟩, has⟩
      simp [Target.arrival?, caught, direction]
    | _ => cases shown

/-- The facts that are picked from marks of one kind have a bit where a mark shows its outcome. -/
theorem has_joinAll_filterMap {pick : Mark → Option Facts} {outcome : Outcome} {bit : Bool}
    (picks : ∀ mark : Mark, mark.shows outcome ↔ ∃ facts ∈ pick mark, facts.has bit = true)
    (marks : List Mark) :
    (Facts.joinAll (marks.filterMap pick)).has bit = true ↔ showsIn marks outcome := by
  simp only [Facts.has_joinAll, List.mem_filterMap, showsIn, picks]
  constructor
  · rintro ⟨facts, ⟨mark, member, picked⟩, has⟩
    exact ⟨mark, member, facts, picked, has⟩
  · rintro ⟨mark, member, facts, picked, has⟩
    exact ⟨facts, ⟨mark, member, picked⟩, has⟩

theorem has_returnedFacts (marks : List Mark) (bit : Bool) :
    (returnedFacts marks).has bit = true ↔ showsIn marks (.returned bit) :=
  has_joinAll_filterMap (fun mark => by cases mark <;> simp [Mark.shows, Mark.returned?]) marks

theorem has_observedFacts (marks : List Mark) (bit : Bool) :
    (observedFacts marks).has bit = true ↔ showsIn marks (.threw bit) :=
  has_joinAll_filterMap (fun mark => by cases mark <;> simp [Mark.shows, Mark.observed?]) marks

theorem showsIn_pass (target : Target) (marks : List Mark) (outcome : Outcome) :
    showsIn (target.pass marks) outcome
      ↔ showsIn marks outcome
        ∧ ∀ jump bit, outcome = .jumped jump bit → target.catches jump = false := by
  simp only [showsIn, Target.pass, List.mem_filter]
  constructor
  · rintro ⟨mark, ⟨member, passes⟩, shown⟩
    refine ⟨⟨mark, member, shown⟩, ?_⟩
    rintro jump bit rfl
    cases mark with
    | jumped taken facts =>
      obtain ⟨rfl, _⟩ := shown
      simpa [Target.passes] using passes
    | _ => cases shown
  · rintro ⟨⟨mark, member, shown⟩, free⟩
    refine ⟨mark, ⟨member, ?_⟩, shown⟩
    cases mark with
    | jumped taken facts =>
      cases outcome with
      | jumped jump bit =>
        obtain ⟨rfl, _⟩ := shown
        simp [Target.passes, free taken bit rfl]
      | _ => cases shown
    | _ => rfl

/-! ## Flows that match paths -/

/-- A flow from some facts matches some paths if it shows exactly the outcomes that these
have from one of the facts. -/
def Flow.Matches (flow : Flow) (facts : Facts) (paths : Paths) : Prop :=
  ∀ outcome, flow.shows outcome ↔ ∃ bit, facts.has bit = true ∧ paths bit outcome

namespace Flow

variable {flow : Flow} {facts : Facts} {paths : Paths}

theorem matches_stay (facts : Facts) : (stay facts).Matches facts .skip := by
  intro outcome
  rcases outcome.ended_or_stops with ⟨bit, rfl⟩ | stops
  · simp [stay, Paths.skip, Paths.stop]
  · rw [shows_of_not_goesOn _ stops]
    simp only [stay, showsIn_nil, Paths.skip, Paths.stop, false_iff, not_exists, not_and]
    rintro bit _ rfl
    cases stops

theorem matches_stop {mark : Mark} {end_ : Bool → Outcome}
    (never : ∀ bit, (end_ bit).goesOn = false)
    (marked : ∀ outcome, mark.shows outcome
      ↔ ∃ bit, facts.has bit = true ∧ outcome = end_ bit) :
    (stop mark).Matches facts (.stop end_) := by
  intro outcome
  rcases outcome.ended_or_stops with ⟨bit, rfl⟩ | stops
  · simp only [shows_ended, stop, Facts.has_unreachable, Paths.stop, Bool.false_eq_true, false_iff,
      not_exists, not_and]
    intro before _ same
    have contradiction := never before
    rw [← same] at contradiction
    cases contradiction
  · rw [shows_of_not_goesOn _ stops]
    simp only [stop, showsIn_cons, showsIn_nil, or_false, marked, Paths.stop]

theorem matches_return (facts : Facts) :
    (stop (.returned facts)).Matches facts (.stop .returned) := by
  refine matches_stop (fun _ => rfl) fun outcome => ?_
  cases outcome <;> simp [Mark.shows]

theorem matches_jump (jump : Jump) (facts : Facts) :
    (stop (.jumped jump facts)).Matches facts (.stop (.jumped jump)) := by
  refine matches_stop (fun _ => rfl) fun outcome => ?_
  cases outcome with
  | jumped taken bit =>
    constructor
    · rintro ⟨rfl, has⟩
      exact ⟨bit, has, rfl⟩
    · rintro ⟨_, has, same⟩
      cases same
      exact ⟨rfl, has⟩
  | _ => simp [Mark.shows]

theorem matches_throw (facts : Facts) :
    (stop (.observed facts)).Matches facts (.stop .threw) := by
  refine matches_stop (fun _ => rfl) fun outcome => ?_
  cases outcome <;> simp [Mark.shows]

theorem matches_returnValue (facts : Facts) :
    (stop (.returned (if true && !facts.isUnreachable then .afterCall else facts))).Matches facts
      (.stop fun _ => .returned true) := by
  refine matches_stop (fun _ => rfl) fun outcome => ?_
  cases unreachable : facts.isUnreachable with
  | true =>
    have empty := (Facts.isUnreachable_iff facts).1 unreachable
    cases outcome <;> simp [Mark.shows, empty]
  | false =>
    obtain ⟨bit, has⟩ := (Facts.not_isUnreachable_iff facts).1 unreachable
    cases outcome with
    | returned after =>
      simp only [Mark.shows, Bool.not_false, Bool.and_self, if_true, Facts.has_afterCall,
        Outcome.returned.injEq]
      exact ⟨fun same => ⟨bit, has, same⟩, fun ⟨_, _, same⟩ => same⟩
    | _ => simp [Mark.shows]

theorem Matches.andThen {next : Facts → Flow} {second : Paths} (first : flow.Matches facts paths)
    (rest : (next flow.out).Matches flow.out second) :
    (flow.andThen next).Matches facts (paths.andThen second) := by
  have between : ∀ outcome, (∃ bit, flow.out.has bit = true ∧ second bit outcome)
      ↔ ∃ bit, facts.has bit = true ∧ ∃ middle, paths bit (.ended middle)
        ∧ second middle outcome := by
    intro outcome
    constructor
    · rintro ⟨middle, reached, goes⟩
      obtain ⟨bit, has, ends⟩ := (first (.ended middle)).1 reached
      exact ⟨bit, has, middle, ends, goes⟩
    · rintro ⟨bit, has, middle, ends, goes⟩
      exact ⟨middle, (first (.ended middle)).2 ⟨bit, has, ends⟩, goes⟩
  intro outcome
  rcases outcome.ended_or_stops with ⟨bit, rfl⟩ | stops
  · have last := rest (.ended bit)
    rw [between] at last
    simp only [Paths.andThen, Outcome.goesOn, Bool.true_eq_false, and_false, or_false]
    exact last
  · have before := first outcome
    have after := rest outcome
    rw [shows_of_not_goesOn _ stops] at before after
    rw [shows_of_not_goesOn _ stops]
    simp only [Flow.andThen, showsIn_append, before, after, between, Paths.andThen, stops,
      and_true, and_or_left, exists_or]
    exact or_comm

theorem Matches.either {other : Flow} {second : Paths} (left : flow.Matches facts paths)
    (right : other.Matches facts second) :
    (flow.either other).Matches facts (paths.either second) := by
  intro outcome
  simp only [Paths.either, and_or_left, exists_or, ← left outcome, ← right outcome]
  rcases outcome.ended_or_stops with ⟨bit, rfl⟩ | stops
  · simp [Flow.either]
  · simp [shows_of_not_goesOn _ stops, Flow.either]

theorem Matches.either_unreachable (known : flow.Matches facts paths) :
    (flow.either (.stay .unreachable)).Matches facts paths := by
  intro outcome
  rw [← known outcome]
  rcases outcome.ended_or_stops with ⟨bit, rfl⟩ | stops
  · simp [Flow.either, stay]
  · simp [shows_of_not_goesOn _ stops, Flow.either, stay]

theorem Matches.afterObserved (rest : flow.Matches facts paths) :
    (after (.observed facts) flow).Matches facts (.either (.stop .threw) paths) := by
  have both := (matches_throw facts).either rest
  intro outcome
  rw [← both outcome]
  rcases outcome.ended_or_stops with ⟨bit, rfl⟩ | stops
  · simp [after, Flow.either, stop]
  · simp [shows_of_not_goesOn _ stops, after, Flow.either, stop]

section Jumps

variable (target : Target)

theorem Matches.exists_jump_iff (inside : flow.Matches facts paths) (direction bit : Bool) :
    (∃ jump, showsIn flow.marks (.jumped jump bit) ∧ target.catches jump = true
        ∧ jump.continues = direction)
      ↔ ∃ before, facts.has before = true ∧ ∃ jump after, paths before (.jumped jump after)
        ∧ target.catches jump = true ∧ jump.continues = direction
        ∧ Outcome.ended bit = .ended after := by
  constructor
  · rintro ⟨jump, shown, caught, direction⟩
    obtain ⟨before, has, goes⟩ := (inside (.jumped jump bit)).1 shown
    exact ⟨before, has, jump, bit, goes, caught, direction, rfl⟩
  · rintro ⟨before, has, jump, after, goes, caught, direction, same⟩
    cases same
    exact ⟨jump, (inside (.jumped jump _)).2 ⟨before, has, goes⟩, caught, direction⟩

theorem not_exists_jump {outcome : Outcome} (stops : outcome.goesOn = false) (direction : Bool) :
    ¬ ∃ before, facts.has before = true ∧ ∃ jump after, paths before (.jumped jump after)
      ∧ target.catches jump = true ∧ jump.continues = direction ∧ outcome = .ended after := by
  rintro ⟨_, _, _, _, _, _, _, rfl⟩
  cases stops

theorem Matches.enclose (inside : flow.Matches facts paths) :
    (target.enclose flow).Matches facts (.breaking target paths) := by
  intro outcome
  simp only [Paths.breaking, and_or_left, exists_or]
  rcases outcome.ended_or_stops with ⟨bit, rfl⟩ | stops
  · simp only [shows_ended, Target.enclose, Facts.has_join, Bool.or_eq_true, Target.breaks,
      has_arrivals, inside.exists_jump_iff target, ← inside (.ended bit), reduceCtorEq,
      false_implies, implies_true, and_true]
    exact or_comm
  · have shown := inside outcome
    rw [shows_of_not_goesOn _ stops] at shown
    rw [shows_of_not_goesOn _ stops]
    simp only [Target.enclose, showsIn_pass, not_exists_jump target stops, false_or, shown]
    constructor
    · rintro ⟨⟨before, has, goes⟩, free⟩
      exact ⟨before, has, goes, free⟩
    · rintro ⟨before, has, goes, free⟩
      exact ⟨⟨before, has, goes⟩, free⟩

/-- The flow of a round, joined by its continue statements. -/
def resume (flow : Flow) : Flow :=
  ⟨flow.out.join (target.continues flow.marks), flow.marks⟩

theorem Matches.resume (inside : flow.Matches facts paths) :
    (resume target flow).Matches facts (.continuing target paths) := by
  intro outcome
  simp only [Paths.continuing, and_or_left, exists_or, ← inside outcome]
  rcases outcome.ended_or_stops with ⟨bit, rfl⟩ | stops
  · simp only [shows_ended, Flow.resume, Facts.has_join, Bool.or_eq_true, Target.continues,
      has_arrivals]
    rw [or_comm, inside.exists_jump_iff target]
  · simp only [not_exists_jump target stops, false_or, shows_of_not_goesOn _ stops, Flow.resume]

end Jumps

end Flow

/-! ## Loops -/

/-- A round of a loop stands for the paths that leave the loop and those that go round. -/
structure Round.Matches (round : Round) (facts : Facts) (again leave : Paths) : Prop where
  leaves : ∀ bit, round.leave.has bit = true
    ↔ ∃ before, facts.has before = true ∧ leave before (.ended bit)
  backs : ∀ bit, round.back.has bit = true
    ↔ ∃ before, facts.has before = true ∧ again before (.ended bit)
  stops : ∀ outcome, outcome.goesOn = false → (showsIn round.marks outcome
    ↔ ∃ before, facts.has before = true ∧ (leave before outcome ∨ again before outcome))

theorem Round.matches_of_flows {round : Round} {left next : Flow} {facts : Facts}
    {again leave : Paths} (leaves : left.Matches facts leave) (backs : next.Matches facts again)
    (isLeave : round.leave = left.out) (isBack : round.back = next.out)
    (shared : ∀ outcome, showsIn round.marks outcome
      ↔ showsIn left.marks outcome ∨ showsIn next.marks outcome) :
    round.Matches facts again leave where
  leaves bit := isLeave ▸ leaves (.ended bit)
  backs bit := isBack ▸ backs (.ended bit)
  stops outcome stops := by
    have first := leaves outcome
    have second := backs outcome
    rw [Flow.shows_of_not_goesOn _ stops] at first second
    simp only [shared, first, second, and_or_left, exists_or]

/-- The bits with which some number of rounds can come back to the head of a loop. -/
def Heads (again : Paths) (before : Facts) (bit : Bool) : Prop :=
  ∃ first, before.has first = true ∧ Relation.ReflTransGen again.Ends first bit

section Loop

variable {target : Target} {round : Facts → Round} {again leave : Paths} {before : Facts}
  (rounds : ∀ facts, (round facts).Matches facts again leave)
include rounds

theorem matches_lastRound (entry : Facts) :
    (target.enclose ⟨(round entry).leave, (round entry).marks⟩).Matches entry
      (.breaking target (.lastRound again leave)) := by
  refine Flow.Matches.enclose target fun outcome => ?_
  rcases outcome.ended_or_stops with ⟨bit, rfl⟩ | stops
  · simp only [Flow.shows_ended, (rounds entry).leaves, Paths.lastRound, Paths.aside,
      Outcome.goesOn, Bool.true_eq_false, and_false, or_false]
  · simp only [Flow.shows_of_not_goesOn _ stops, (rounds entry).stops _ stops, Paths.lastRound,
      Paths.aside, stops, and_true]

theorem heads_next {entry : Facts} (heads : ∀ bit, entry.has bit = true → Heads again before bit)
    (bit : Bool) (has : (before.join (round entry).back).has bit = true) :
    Heads again before bit := by
  rw [Facts.has_join, Bool.or_eq_true] at has
  rcases has with started | back
  · exact ⟨bit, started, .refl⟩
  · obtain ⟨middle, entered, ends⟩ := ((rounds entry).backs bit).1 back
    obtain ⟨first, started, steps⟩ := heads middle entered
    exact ⟨first, started, steps.tail ends⟩

theorem has_next_mono {fewer more : Facts}
    (subset : ∀ bit, fewer.has bit = true → more.has bit = true) {bit : Bool}
    (has : (before.join (round fewer).back).has bit = true) :
    (before.join (round more).back).has bit = true := by
  rw [Facts.has_join, Bool.or_eq_true] at has ⊢
  refine has.imp_right fun back => ?_
  obtain ⟨first, entered, ends⟩ := ((rounds fewer).backs bit).1 back
  exact ((rounds more).backs bit).2 ⟨first, subset first entered, ends⟩

theorem exists_head_of_runRounds (more : Nat) (entry : Facts)
    (heads : ∀ bit, entry.has bit = true → Heads again before bit) (outcome : Outcome)
    (shown : (runRounds target round before more entry).shows outcome) :
    ∃ head, Heads again before head
      ∧ Paths.breaking target (.lastRound again leave) head outcome := by
  have last : (target.enclose ⟨(round entry).leave, (round entry).marks⟩).shows outcome →
      ∃ head, Heads again before head
        ∧ Paths.breaking target (.lastRound again leave) head outcome := by
    intro seen
    obtain ⟨head, has, goes⟩ := (matches_lastRound rounds entry outcome).1 seen
    exact ⟨head, heads head has, goes⟩
  induction more generalizing entry with
  | zero => exact last shown
  | succ more ih =>
    rw [runRounds] at shown
    by_cases fixed : before.join (round entry).back = entry
    · rw [if_pos fixed] at shown
      exact last shown
    · rw [if_neg fixed] at shown
      have next := heads_next rounds heads
      have later := fun shown => ih _ next shown fun seen =>
        have ⟨head, has, goes⟩ := (matches_lastRound rounds _ outcome).1 seen
        ⟨head, next head has, goes⟩
      rcases outcome.ended_or_stops with ⟨bit, rfl⟩ | stops
      · exact later shown
      · rw [Flow.shows_of_not_goesOn _ stops, showsIn_append] at shown
        rcases shown with first | rest
        · exact last ((Flow.shows_of_not_goesOn _ stops).2 first)
        · exact later ((Flow.shows_of_not_goesOn _ stops).2 rest)

theorem has_of_fixed {entry : Facts} (fixed : before.join (round entry).back = entry) {bit : Bool}
    (head : Heads again before bit) : entry.has bit = true := by
  obtain ⟨first, started, steps⟩ := head
  induction steps with
  | refl =>
    rw [← fixed, Facts.has_join, started]
    rfl
  | tail _ ends ih =>
    rw [← fixed, Facts.has_join, Bool.or_eq_true]
    exact .inr (((rounds entry).backs _).2 ⟨_, ih, ends⟩)

/-- A run of rounds that is long enough shows all that a last round from one of the heads
leads to. A round that does not add to the facts ends the run; any other adds one of two
bits. -/
theorem runRounds_shows (more : Nat) (entry : Facts) (enough : 2 ≤ more + entry.size)
    (grows : ∀ bit, entry.has bit = true → (before.join (round entry).back).has bit = true)
    {head : Bool} (isHead : Heads again before head) (outcome : Outcome)
    (goes : Paths.breaking target (.lastRound again leave) head outcome) :
    (runRounds target round before more entry).shows outcome := by
  induction more generalizing entry with
  | zero =>
    rw [Nat.zero_add] at enough
    exact (matches_lastRound rounds entry outcome).2 ⟨head, Facts.has_of_size enough head, goes⟩
  | succ more ih =>
    rw [runRounds]
    by_cases fixed : before.join (round entry).back = entry
    · rw [if_pos fixed]
      exact (matches_lastRound rounds entry outcome).2
        ⟨head, has_of_fixed rounds fixed isHead, goes⟩
    · rw [if_neg fixed]
      have larger := Facts.size_lt_of_subset grows fixed
      have rest := ih (before.join (round entry).back) (by omega)
        fun bit => has_next_mono rounds grows
      rcases outcome.ended_or_stops with ⟨bit, rfl⟩ | stops
      · exact rest
      · rw [Flow.shows_of_not_goesOn _ stops] at rest ⊢
        exact (showsIn_append _ _ _).2 (.inr rest)

/-- The rounds of a loop stand for all its paths: facts only grow, so some round adds nothing, and
then none after it does. -/
theorem matches_runLoop (before : Facts) :
    (runLoop target round before).Matches before (.loop target again leave) := by
  intro outcome
  constructor
  · intro shown
    obtain ⟨head, ⟨first, started, steps⟩, goes⟩ :=
      exists_head_of_runRounds rounds 2 before (fun bit has => ⟨bit, has, .refl⟩) outcome shown
    exact ⟨first, started, head, steps, goes⟩
  · rintro ⟨first, started, head, steps, goes⟩
    refine runRounds_shows rounds 2 before (by omega) (fun bit has => ?_)
      ⟨first, started, steps⟩ outcome goes
    rw [Facts.has_join, has, Bool.true_or]

end Loop

end TemplateLint.Constructor
