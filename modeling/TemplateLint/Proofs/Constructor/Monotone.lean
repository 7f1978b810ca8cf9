import Mathlib.Order.BoundedOrder.Lattice
import Mathlib.Order.Bounds.Basic
import Mathlib.Order.Iterate
import TemplateLint.Proofs.Constructor.Statements
import TemplateLint.Proofs.Constructor.Summary

/-!
# More facts in, more facts out

What a piece of code leaves behind is read off its flow by what surrounds it (`outputs`). It can be
told from the outcomes that the flow shows (`has_outputs_iff`), so it is additive in the facts at
the start (`Distributes`). The facts at the entry of a loop only grow (`entries`), so going round
it comes to an end (`Iterates`), with the least facts that a round does not add to (`Settles`).
-/

namespace TemplateLint.Constructor

open TemplateLint.Syntax

/-! ## The order of facts -/

namespace Facts

theorem ext_has {left right : Facts} (same : ∀ bit, left.has bit = right.has bit) :
    left = right := by
  obtain ⟨notCalled, called⟩ := left
  obtain ⟨notCalled', called'⟩ := right
  exact congrArg₂ Facts.mk (same false) (same true)

instance : PartialOrder Facts where
  le left right := ∀ bit, left.has bit = true → right.has bit = true
  le_refl _ _ := id
  le_trans _ _ _ first second bit has := second bit (first bit has)
  le_antisymm _ _ first second := ext_has fun bit => Bool.eq_iff_iff.2 ⟨first bit, second bit⟩

instance : SemilatticeSup Facts where
  sup := join
  le_sup_left left right bit has := by simp [has]
  le_sup_right left right bit has := by simp [has]
  sup_le left right upper first second bit has := by
    rw [has_join, Bool.or_eq_true] at has
    exact has.elim (first bit) (second bit)

instance : OrderBot Facts where
  bot := unreachable
  bot_le facts bit has := by
    rw [has_unreachable] at has
    cases has

theorem join_eq_sup (left right : Facts) : left.join right = left ⊔ right := rfl

@[simp] theorem has_sup (left right : Facts) (bit : Bool) :
    (left ⊔ right).has bit = (left.has bit || right.has bit) := has_join left right bit

theorem size_le_two (facts : Facts) : facts.size ≤ 2 := by
  rcases facts with ⟨_ | _, _ | _⟩ <;> decide

@[simp] theorem has_bot (bit : Bool) : (⊥ : Facts).has bit = false := has_unreachable bit

end Facts

/-! ## What a piece of code leaves behind -/

/-- A try statement around the code. -/
structure TryContext where
  hasFinalizer : Bool
  /-- The code is in the try block, and not in the catch clause. -/
  collecting : Bool

/-- The targets and try statements around a piece of code, the innermost first. -/
structure Surroundings where
  targets : List Target
  tries : List TryContext

/-- The places where the analysis collects facts. -/
inductive Output where
  | result
  | exits
  /-- The returns that wait for the finally block of a try statement. -/
  | pending (index : Nat)
  | observed (index : Nat)
  | breaks (index : Nat)
  | continues (index : Nat)
  | call (site : CallSite)

namespace Surroundings

/-- The marks that come through to a target, past the targets inside it. -/
def passed (around : Surroundings) (index : Nat) (marks : List Mark) : List Mark :=
  (around.targets.take index).foldl (fun marks target => target.pass marks) marks

/-- The facts with which marked jumps arrive at a target. -/
def arrivals (around : Surroundings) (continues : Bool) (index : Nat) (marks : List Mark) : Facts :=
  match around.targets[index]? with
  | some target => .joinAll ((around.passed index marks).filterMap (target.arrival? continues))
  | none => .unreachable

end Surroundings

/-- The facts that a flow adds to each place. -/
def outputs (around : Surroundings) (flow : Flow) : Output → Facts
  | .result => flow.out
  | .exits =>
    if around.tries.any (·.hasFinalizer) then .unreachable else returnedFacts flow.marks
  | .pending index =>
    if around.tries.findIdx? (·.hasFinalizer) = some index then returnedFacts flow.marks
    else .unreachable
  | .observed index =>
    if around.tries[index]?.any (·.collecting) then observedFacts flow.marks else .unreachable
  | .breaks index => around.arrivals false index flow.marks
  | .continues index => around.arrivals true index flow.marks
  | .call site => factsFor (callsOf flow.marks) site

/-- A jump comes to a target, past the targets inside it. -/
def Surroundings.Reaches (around : Surroundings) (index : Nat) (jump : Jump) : Prop :=
  (∃ target, around.targets[index]? = some target ∧ target.catches jump = true)
    ∧ ∀ inner ∈ around.targets.take index, inner.catches jump = false

/-- The outcomes that count at a place. -/
def Surroundings.Receives (around : Surroundings) : Output → Outcome → Prop
  | .result, .ended _ => True
  | .exits, .returned _ => around.tries.any (·.hasFinalizer) = false
  | .pending index, .returned _ => around.tries.findIdx? (·.hasFinalizer) = some index
  | .observed index, .threw _ => around.tries[index]?.any (·.collecting) = true
  | .breaks index, .jumped jump _ => jump.continues = false ∧ around.Reaches index jump
  | .continues index, .jumped jump _ => jump.continues = true ∧ around.Reaches index jump
  | .call site, .met reached _ => site = reached
  | _, _ => False

section Outputs

variable {around : Surroundings} {flow other : Flow}

theorem showsIn_foldl_pass (targets : List Target) (marks : List Mark) (jump : Jump) (bit : Bool) :
    showsIn (targets.foldl (fun marks target => target.pass marks) marks) (.jumped jump bit)
      ↔ showsIn marks (.jumped jump bit) ∧ ∀ target ∈ targets, target.catches jump = false := by
  induction targets generalizing marks with
  | nil => simp
  | cons target rest ih =>
    rw [List.foldl_cons, ih, showsIn_pass, List.forall_mem_cons, and_assoc]
    refine and_congr_right fun _ => and_congr_left fun _ => ⟨fun free => free jump bit rfl, ?_⟩
    rintro free _ _ same
    cases same
    exact free

theorem has_arrivals_iff (continues : Bool) (index : Nat) (marks : List Mark) (bit : Bool) :
    (around.arrivals continues index marks).has bit = true
      ↔ ∃ jump, showsIn marks (.jumped jump bit) ∧ jump.continues = continues
        ∧ around.Reaches index jump := by
  unfold Surroundings.arrivals Surroundings.Reaches
  cases found : around.targets[index]? with
  | none => simp
  | some target =>
    simp only [has_arrivals, Surroundings.passed, showsIn_foldl_pass, Option.some.injEq,
      exists_eq_left']
    refine exists_congr fun jump => ?_
    constructor
    · rintro ⟨⟨shown, free⟩, caught, direction⟩
      exact ⟨shown, direction, caught, free⟩
    · rintro ⟨shown, direction, caught, free⟩
      exact ⟨⟨shown, free⟩, caught, direction⟩

theorem has_ite_unreachable (condition : Prop) [Decidable condition] (facts : Facts) (bit : Bool) :
    (if condition then facts else .unreachable).has bit = true
      ↔ condition ∧ facts.has bit = true := by
  split <;> simp_all

/-- **All that a flow leaves behind can be told from the outcomes that it shows.** -/
theorem has_outputs_iff (output : Output) (bit : Bool) :
    (outputs around flow output).has bit = true
      ↔ ∃ outcome, flow.shows outcome ∧ outcome.called = bit
        ∧ around.Receives output outcome := by
  constructor
  · intro has
    cases output with
    | result => exact ⟨.ended bit, has, rfl, trivial⟩
    | exits =>
      rw [outputs, ← ite_not, has_ite_unreachable, has_returnedFacts] at has
      exact ⟨.returned bit, has.2, rfl, Bool.eq_false_iff.2 has.1⟩
    | pending index =>
      rw [outputs, has_ite_unreachable, has_returnedFacts] at has
      exact ⟨.returned bit, has.2, rfl, has.1⟩
    | observed index =>
      rw [outputs, has_ite_unreachable, has_observedFacts] at has
      exact ⟨.threw bit, has.2, rfl, has.1⟩
    | breaks index | continues index =>
      obtain ⟨jump, shown, reaches⟩ := (has_arrivals_iff _ index flow.marks bit).1 has
      exact ⟨.jumped jump bit, shown, rfl, reaches⟩
    | call site =>
      exact ⟨.met site bit, (has_factsFor_callsOf flow.marks site bit).1 has, rfl, rfl⟩
  · rintro ⟨outcome, shown, rfl, received⟩
    cases output with
    | result =>
      cases outcome with
      | ended bit => exact shown
      | _ => cases received
    | exits =>
      cases outcome with
      | returned bit =>
        rw [outputs, ← ite_not, has_ite_unreachable, has_returnedFacts]
        exact ⟨Bool.eq_false_iff.1 received, shown⟩
      | _ => cases received
    | pending index =>
      cases outcome with
      | returned bit =>
        rw [outputs, has_ite_unreachable, has_returnedFacts]
        exact ⟨received, shown⟩
      | _ => cases received
    | observed index =>
      cases outcome with
      | threw bit =>
        rw [outputs, has_ite_unreachable, has_observedFacts]
        exact ⟨received, shown⟩
      | _ => cases received
    | breaks index | continues index =>
      cases outcome with
      | jumped jump bit => exact (has_arrivals_iff _ index flow.marks bit).2 ⟨jump, shown, received⟩
      | _ => cases received
    | call site =>
      cases outcome with
      | met reached bit =>
        cases received
        exact (has_factsFor_callsOf flow.marks site bit).2 shown
      | _ => cases received

theorem outputs_congr (same : ∀ outcome, flow.shows outcome ↔ other.shows outcome) :
    outputs around flow = outputs around other := by
  funext output
  refine Facts.ext_has fun bit => Bool.eq_iff_iff.2 ?_
  simp only [has_outputs_iff, same]

end Outputs

/-! ## Additive flows -/

/-- What a piece of code leaves behind is put together from what it leaves behind when started with
parts of the facts; from none, it leaves nothing and meets no call. -/
structure Distributes (walk : Facts → Flow) : Prop where
  monotone : ∀ around, Monotone fun facts => outputs around (walk facts)
  sup : ∀ around left right,
    outputs around (walk (left ⊔ right)) = outputs around (walk left) ⊔ outputs around (walk right)
  bot : ∀ around, outputs around (walk ⊥) = ⊥
  silent : callsOf (walk ⊥).marks = []

/-- **Flows that match paths are additive**: a path starts with one bit. -/
theorem distributes_of_matches {walk : Facts → Flow} {paths : Paths}
    (known : ∀ facts, (walk facts).Matches facts paths) : Distributes walk := by
  have empty : ∀ outcome, ¬ (walk ⊥).shows outcome := by
    intro outcome shown
    obtain ⟨bit, has, _⟩ := (known ⊥ outcome).1 shown
    rw [Facts.has_bot] at has
    cases has
  have sup : ∀ around left right,
      outputs around (walk (left ⊔ right))
        = outputs around (walk left) ⊔ outputs around (walk right) := by
    intro around left right
    funext output
    refine Facts.ext_has fun bit => Bool.eq_iff_iff.2 ?_
    rw [Pi.sup_apply, Facts.has_sup, Bool.or_eq_true]
    simp only [has_outputs_iff, known _ _, Facts.has_sup, Bool.or_eq_true, or_and_right, exists_or]
  refine ⟨fun around left right le => ?_, sup, fun around => ?_, ?_⟩
  · have whole := sup around left right
    rw [sup_eq_right.2 le] at whole
    exact sup_eq_right.1 whole.symm
  · funext output
    refine Facts.ext_has fun bit => ?_
    rw [Pi.bot_apply, Facts.has_bot, ← Bool.not_eq_true, has_outputs_iff]
    rintro ⟨outcome, shown, _⟩
    exact empty outcome shown
  · have none : (callsOf (walk ⊥).marks).map Prod.fst = [] := by
      refine List.eq_nil_iff_forall_not_mem.2 fun site member => ?_
      obtain ⟨bit, shown⟩ := (mem_sites_callsOf _ site).1 member
      exact empty (.met site bit) shown
    exact List.map_eq_nil_iff.1 none

/-! ## Rounds until nothing changes -/

/-- The facts at the head of a loop after a number of rounds. -/
def entries (round : Facts → Round) (before : Facts) (count : Nat) : Facts :=
  (fun entry => before ⊔ (round entry).back)^[count] before

/-- A loop is gone round from an entry on until the entry no longer changes. The flow is that of
the last round, with the marks of all. -/
inductive Iterates (target : Target) (round : Facts → Round) (before : Facts) :
    Facts → Flow → Prop where
  | last {entry : Facts} (fixed : before ⊔ (round entry).back = entry) :
      Iterates target round before entry
        (target.enclose ⟨(round entry).leave, (round entry).marks⟩)
  | again {entry : Facts} {rest : Flow} (changed : before ⊔ (round entry).back ≠ entry)
      (onward : Iterates target round before (before ⊔ (round entry).back) rest) :
      Iterates target round before entry
        ⟨rest.out, target.pass (round entry).marks ++ rest.marks⟩

/-- What a loop comes to: the entries grow, going round ends with the computed flow, and this flow
leaves behind what the round from the least fixed entry does. -/
structure Settles (target : Target) (round : Facts → Round) (before : Facts) : Prop where
  grows : Monotone (entries round before)
  ends : Iterates target round before before (runLoop target round before)
  least : ∃ last, IsLeast {entry | before ⊔ (round entry).back = entry} last
    ∧ (∀ count, 2 ≤ count → entries round before count = last)
    ∧ ∀ around, outputs around (runLoop target round before)
      = outputs around (target.enclose ⟨(round last).leave, (round last).marks⟩)

section Rounds

variable {target : Target} {round : Facts → Round} {again leave : Paths}
  (rounds : ∀ facts, (round facts).Matches facts again leave)

include rounds

theorem monotone_next (before : Facts) : Monotone fun entry => before ⊔ (round entry).back :=
  fun _ _ le _ => has_next_mono rounds le

theorem monotone_entries (before : Facts) : Monotone (entries round before) :=
  (monotone_next rounds before).monotone_iterate_of_le_map le_sup_left

theorem iterates_runRounds (before : Facts) (more : Nat) (entry : Facts)
    (enough : 2 ≤ more + entry.size) (grows : entry ≤ before ⊔ (round entry).back) :
    Iterates target round before entry (runRounds target round before more entry) := by
  induction more generalizing entry with
  | zero =>
    rw [Nat.zero_add] at enough
    refine .last (le_antisymm (fun bit _ => ?_) grows)
    exact Facts.has_of_size enough bit
  | succ more ih =>
    rw [runRounds, Facts.join_eq_sup]
    by_cases fixed : before ⊔ (round entry).back = entry
    · rw [if_pos fixed]
      exact .last fixed
    · rw [if_neg fixed]
      have larger := Facts.size_lt_of_subset grows fixed
      exact .again fixed (ih _ (by omega) (monotone_next rounds before grows))

omit rounds in
theorem entries_succ (round : Facts → Round) (before : Facts) (count : Nat) :
    entries round before (count + 1) = before ⊔ (round (entries round before count)).back :=
  Function.iterate_succ_apply' _ count before

omit rounds in
theorem entries_stay {before : Facts} {count : Nat}
    (same : entries round before (count + 1) = entries round before count) {later : Nat}
    (after : count ≤ later) : entries round before later = entries round before count := by
  induction later, after using Nat.le_induction with
  | base => rfl
  | succ later _ ih => rw [entries_succ, ih, ← entries_succ, same]

/-- The entry of the third round stays: each of three changes would add one of two bits. -/
theorem entries_fixed (before : Facts) :
    entries round before 3 = entries round before 2 := by
  by_contra changed
  have larger : ∀ count ≤ 2,
      (entries round before count).size < (entries round before (count + 1)).size := by
    intro count le
    refine Facts.size_lt_of_subset (monotone_entries rounds before count.le_succ) fun same => ?_
    exact changed ((entries_stay same (by omega)).trans (entries_stay same le).symm)
  have first : (entries round before 0).size < (entries round before 1).size := larger 0 (by omega)
  have second : (entries round before 1).size < (entries round before 2).size := larger 1 (by omega)
  have third : (entries round before 2).size < (entries round before 3).size := larger 2 (by omega)
  have bound := (entries round before 3).size_le_two
  omega

theorem isLeast_entries (before : Facts) :
    IsLeast {entry | before ⊔ (round entry).back = entry} (entries round before 2) := by
  refine ⟨(entries_succ round before 2).symm.trans (entries_fixed rounds before), ?_⟩
  intro entry fixed
  have below : ∀ count, entries round before count ≤ entry := by
    intro count
    induction count with
    | zero => exact le_sup_left.trans_eq fixed
    | succ count ih =>
      rw [entries_succ]
      exact (monotone_next rounds before ih).trans_eq fixed
  exact below 2

theorem has_entries_iff (before : Facts) (bit : Bool) :
    (entries round before 2).has bit = true ↔ Heads again before bit := by
  have heads : ∀ count bit, (entries round before count).has bit = true →
      Heads again before bit := by
    intro count
    induction count with
    | zero => exact fun bit has => ⟨bit, has, .refl⟩
    | succ count ih =>
      rw [entries_succ]
      exact heads_next rounds ih
  exact ⟨heads 2 bit, has_of_fixed rounds (isLeast_entries rounds before).1⟩

/-- **A loop comes to its least fixed entry and stops there.** -/
theorem settles_of_matches (before : Facts) : Settles target round before where
  grows := monotone_entries rounds before
  ends := iterates_runRounds rounds before 2 before (by omega) le_sup_left
  least := by
    refine ⟨_, isLeast_entries rounds before, fun count after =>
      entries_stay (entries_fixed rounds before) after,
      fun around => outputs_congr fun outcome => ?_⟩
    rw [matches_runLoop rounds before outcome, matches_lastRound rounds _ outcome]
    simp only [has_entries_iff rounds before]
    constructor
    · rintro ⟨first, started, head, steps, goes⟩
      exact ⟨head, ⟨first, started, steps⟩, goes⟩
    · rintro ⟨head, ⟨first, started, steps⟩, goes⟩
      exact ⟨first, started, head, steps, goes⟩

end Rounds

/-! ## The loops of the language -/

/-- What comes before the first round of a loop, and a round of it. -/
structure LoopParts where
  init : Facts → Flow
  round : Facts → Round

/-- The start of a loop and its round. -/
def loopParts? (labels : List String) (here : Path) : Form → Option LoopParts
  | .whileStatement test body =>
    some ⟨.stay, testFirst (loopTarget labels) (some test) (walkExpression (here.child .test) test)
      (walkStatement [] (here.child .body) body) .stay⟩
  | .doWhileStatement body test =>
    some ⟨.stay, testLast (loopTarget labels) (some test) (walkStatement [] (here.child .body) body)
      (walkExpression (here.child .test) test)⟩
  | .forStatement init test update body =>
    some ⟨walkInit (here.child .init) init, testFirst (loopTarget labels) test
      (walkOptional (here.child .test) test) (walkStatement [] (here.child .body) body)
      (walkOptional (here.child .update) update)⟩
  | .forInStatement _ right body | .forOfStatement _ right body =>
    some ⟨walkExpression (here.child .right) right,
      untested (loopTarget labels) (walkStatement [] (here.child .body) body)⟩
  | _ => none

section Loops

variable {labels : List String} {here : Path} {form : Form} {loop : LoopParts}
  (isLoop : loopParts? labels here form = some loop)

include isLoop

theorem walkForm_eq_of_loop (facts : Facts) :
    walkForm labels here form facts
      = (loop.init facts).andThen (runLoop (loopTarget labels) loop.round) := by
  cases form with
  | whileStatement | doWhileStatement =>
    cases isLoop
    rw [walkForm]
    rfl
  | forStatement | forInStatement | forOfStatement =>
    cases isLoop
    rw [walkForm]
  | _ => cases isLoop

theorem exists_matches_round :
    ∃ again leave, ∀ entry, (loop.round entry).Matches entry again leave := by
  cases form with
  | whileStatement test body =>
    cases isLoop
    exact ⟨_, _, testFirst_matches (walkExpression_matches _ test)
      (walkStatement_matches [] _ body) _ Flow.matches_stay⟩
  | doWhileStatement body test =>
    cases isLoop
    exact ⟨_, _, testLast_matches (walkExpression_matches _ test)
      (walkStatement_matches [] _ body) _⟩
  | forStatement init test update body =>
    cases isLoop
    exact ⟨_, _, testFirst_matches (walkOptional_matches _ test)
      (walkStatement_matches [] _ body) _ (walkOptional_matches _ update)⟩
  | forInStatement left right body | forOfStatement left right body =>
    cases isLoop
    exact ⟨_, _, untested_matches (walkStatement_matches [] _ body) _⟩
  | _ => cases isLoop

end Loops

/-- **The analysis is additive and its loops stop.** Whatever surrounds a statement or an
expression, it leaves more behind if it is started with more, from two sets of facts together what
it leaves behind from each, and nothing from none. Going round a loop comes to an end, and what the
loop leaves behind is that of the round from the least facts that a round does not add to. -/
theorem walk_distributes (labels : List String) (here : Path) (node : Node) :
    Distributes (walkStatement labels here node)
      ∧ Distributes (walkExpression here node)
      ∧ ∀ loop, loopParts? labels here node.form = some loop → ∀ facts,
        walkForm labels here node.form facts
            = (loop.init facts).andThen (runLoop (loopTarget labels) loop.round)
          ∧ Settles (loopTarget labels) loop.round (loop.init facts).out := by
  refine ⟨distributes_of_matches (walkStatement_matches labels here node),
    distributes_of_matches (walkExpression_matches here node), fun loop isLoop facts => ?_⟩
  obtain ⟨again, leave, rounds⟩ := exists_matches_round isLoop
  exact ⟨walkForm_eq_of_loop isLoop facts, settles_of_matches rounds _⟩

/-- The statement `while (a) super();`. -/
def repeatedCall : Node :=
  ⟨⟨0, 18⟩, .whileStatement ⟨⟨7, 8⟩, .identifier "a"⟩
    ⟨⟨10, 18⟩, .expressionStatement ⟨⟨10, 17⟩, .call ⟨⟨10, 15⟩, .super⟩ []⟩⟩⟩

/-- The first round of the loop is entered without a call, and the second with or without one. -/
theorem walk_distributes_repeatedCall :
    ∃ loop, loopParts? [] [] repeatedCall.form = some loop
      ∧ (entries loop.round .start 0 = .start ∧ entries loop.round .start 1 = ⟨true, true⟩)
      ∧ Settles (loopTarget []) loop.round (loop.init .start).out := by
  obtain ⟨_, _, loops⟩ := walk_distributes [] [] repeatedCall
  exact ⟨_, rfl, ⟨rfl, rfl⟩, (loops _ rfl .start).2⟩

end TemplateLint.Constructor
