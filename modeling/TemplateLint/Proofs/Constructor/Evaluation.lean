import TemplateLint.Proofs.Constructor.Flow
import TemplateLint.Proofs.Syntax.View

/-!
# The flow of expressions

The flow of every expression matches its paths (`walked_of_view`). They can always come to the end,
and every change of the bit can be followed by an exception (`Paths.Watched`), which is why a catch
block need not be entered from the end of its try block.
-/

namespace TemplateLint.Constructor

open TemplateLint.Syntax

/-! ## Changes that exceptions can see -/

/-- Paths on which every change of the bit can be followed by an exception, returns
apart. -/
def Paths.Watched (paths : Paths) : Prop :=
  ∀ bit outcome, paths bit outcome → (∀ after, outcome ≠ .returned after) →
    outcome.called = bit ∨ paths bit (.threw outcome.called)

namespace Paths.Watched

variable {paths second : Paths}

theorem stop {outcome : Bool → Outcome} (keeps : ∀ bit, (outcome bit).called = bit) :
    Watched (.stop outcome) := by
  rintro bit _ rfl _
  exact .inl (keeps bit)

theorem stop_returned (value : Bool → Bool) : Watched (.stop fun bit => .returned (value bit)) := by
  rintro bit _ rfl other
  exact absurd rfl (other (value bit))

theorem skip : Watched .skip := stop fun _ => rfl

theorem nowhere : Watched .nowhere := by
  rintro bit outcome ⟨⟩

theorem guard (condition : Bool) : Watched (.guard condition) := by
  rintro bit _ ⟨_, rfl⟩ _
  exact .inl rfl

theorem superCall (site : CallSite) : Watched (.superCall site) := by
  rintro bit _ (rfl | rfl | rfl) _
  · exact .inl rfl
  · exact .inr (.inr (.inl rfl))
  · exact .inr (.inr (.inl rfl))

theorem andThen (first : paths.Watched) (next : second.Watched) :
    (paths.andThen second).Watched := by
  rintro bit outcome (⟨between, ends, goes⟩ | ⟨goes, stops⟩) other
  · rcases next between outcome goes other with same | thrown
    · rw [same]
      refine (first bit _ ends (by simp)).imp_right fun thrown => ?_
      exact .inr ⟨thrown, rfl⟩
    · exact .inr (.inl ⟨between, ends, thrown⟩)
  · exact (first bit outcome goes other).imp_right fun thrown => .inr ⟨thrown, rfl⟩

theorem either (first : paths.Watched) (next : second.Watched) :
    (paths.either second).Watched := by
  rintro bit outcome (goes | goes) other
  · exact (first bit outcome goes other).imp_right .inl
  · exact (next bit outcome goes other).imp_right .inr

theorem aside (all : paths.Watched) : paths.aside.Watched := by
  rintro bit outcome ⟨goes, _⟩ other
  exact (all bit outcome goes other).imp_right fun thrown => ⟨thrown, rfl⟩

theorem breaking (target : Target) (all : paths.Watched) : (Paths.breaking target paths).Watched := by
  rintro bit outcome (⟨jump, after, goes, _, _, rfl⟩ | ⟨goes, _⟩) other
  · refine (all bit _ goes (by simp)).imp_right fun thrown => .inr ⟨thrown, ?_⟩
    simp
  · exact (all bit _ goes other).imp_right fun thrown => .inr ⟨thrown, by simp⟩

theorem continuing (target : Target) (all : paths.Watched) :
    (Paths.continuing target paths).Watched := by
  rintro bit outcome (⟨jump, after, goes, _, _, rfl⟩ | goes) other
  · exact (all bit _ goes (by simp)).imp_right .inr
  · exact (all bit _ goes other).imp_right .inr

/-- A loop: a bit at the head of a later round is that of an earlier one, or an exception
in between has seen it. -/
theorem loop (target : Target) {round leave : Paths} (again : round.Watched)
    (out : leave.Watched) : (Paths.loop target round leave).Watched := by
  have last : (Paths.breaking target (.lastRound round leave)).Watched :=
    breaking target (out.either again.aside)
  rintro bit outcome ⟨head, steps, goes⟩ other
  rcases last head outcome goes other with same | thrown
  · rw [same]
    clear goes same
    induction steps with
    | refl => exact .inl rfl
    | @tail middle after steps ends ih =>
      rcases again _ _ ends (by simp) with same | thrown
      · have kept : after = middle := same
        rw [kept]
        exact ih
      · exact .inr ⟨_, steps, .inr ⟨.inr ⟨thrown, rfl⟩, by simp⟩⟩
  · exact .inr ⟨head, steps, thrown⟩

theorem catching {handler : Paths} (all : paths.Watched) (handled : handler.Watched)
    (starts : ∀ bit, handler bit (.threw bit)) : (Paths.catching paths handler).Watched := by
  rintro bit outcome (⟨thrown, goes, rest⟩ | ⟨goes, _⟩) other
  · rcases handled thrown outcome rest other with same | later
    · exact .inr (.inl ⟨thrown, goes, same ▸ starts thrown⟩)
    · exact .inr (.inl ⟨thrown, goes, later⟩)
  · refine (all bit outcome goes other).imp_right fun thrown => .inl ⟨_, thrown, starts _⟩

end Paths.Watched

/-! ## Expressions -/

theorem Paths.andThen_skip (paths : Paths) : paths.andThen .skip = paths := by
  funext bit outcome
  rcases outcome.ended_or_stops with ⟨after, rfl⟩ | stops
  · simp only [andThen, skip, stop, Outcome.goesOn, Bool.true_eq_false, and_false, or_false,
      Outcome.ended.injEq, exists_eq_right']
  · refine propext ⟨?_, fun goes => .inr ⟨goes, stops⟩⟩
    rintro (⟨between, _, rfl⟩ | ⟨goes, _⟩)
    · cases stops
    · exact goes

/-- Some path goes on, from either bit. -/
def Paths.Total (paths : Paths) : Prop := ∀ bit, ∃ after, paths bit (.ended after)

theorem Paths.Total.skip : Total .skip := fun bit => ⟨bit, rfl⟩

theorem Paths.Total.andThen {first second : Paths} (left : first.Total) (right : second.Total) :
    (first.andThen second).Total := by
  intro bit
  obtain ⟨between, ends⟩ := left bit
  obtain ⟨after, goes⟩ := right between
  exact ⟨after, .inl ⟨between, ends, goes⟩⟩

theorem Paths.Total.either {first second : Paths} (left : first.Total) :
    (first.either second).Total := by
  intro bit
  obtain ⟨after, ends⟩ := left bit
  exact ⟨after, .inl ends⟩

theorem Paths.Total.superCall (site : CallSite) : Total (.superCall site) :=
  fun _ => ⟨true, .inr (.inr rfl)⟩

theorem Flow.matches_unreachable {facts : Facts} (unreachable : facts.isUnreachable = true)
    (paths : Paths) : (Flow.stay facts).Matches facts paths := by
  have empty := (Facts.isUnreachable_iff facts).1 unreachable
  intro outcome
  rcases outcome.ended_or_stops with ⟨bit, rfl⟩ | stops
  · simp [stay, empty]
  · rw [shows_of_not_goesOn _ stops]
    simp [stay, empty]

theorem Flow.matches_superCall (site : CallSite) {facts : Facts}
    (reachable : facts.isUnreachable = false) :
    (Flow.mk .afterCall [.called site facts, .observed .afterCall]).Matches facts
      (.superCall site) := by
  obtain ⟨bit, has⟩ := (Facts.not_isUnreachable_iff facts).1 reachable
  intro outcome
  cases outcome with
  | ended after =>
    simp only [shows_ended, Facts.has_afterCall, Paths.superCall, reduceCtorEq,
      Outcome.ended.injEq, false_or]
    constructor
    · intro same
      exact ⟨bit, has, same⟩
    · rintro ⟨_, _, same⟩
      exact same
  | threw after =>
    simp only [shows, showsIn_cons, showsIn_nil, Mark.shows, Facts.has_afterCall, or_false,
      false_or, Paths.superCall, reduceCtorEq, Outcome.threw.injEq]
    constructor
    · intro same
      exact ⟨bit, has, same⟩
    · rintro ⟨_, _, same⟩
      exact same
  | met reached after =>
    simp only [shows, showsIn_cons, showsIn_nil, Mark.shows, or_false, Paths.superCall,
      reduceCtorEq]
    constructor
    · rintro ⟨rfl, known⟩
      exact ⟨after, known, rfl⟩
    · rintro ⟨before, known, same⟩
      cases same
      exact ⟨rfl, known⟩
  | _ => simp [shows, Mark.shows, Paths.superCall]

/-- What is shown of an expression: its flow matches its paths, which can always come to
the end and are watched. -/
structure Walked (tree : Tree) : Prop where
  flow : ∀ (here : Path) (facts : Facts),
    (walkTree here tree facts).Matches facts (evaluateTree here tree)
  total : ∀ here : Path, (evaluateTree here tree).Total
  watched : ∀ here : Path, (evaluateTree here tree).Watched

theorem Flow.Matches.reachable {flow : Flow} {facts : Facts} {paths : Paths}
    (known : flow.Matches facts paths) (total : paths.Total)
    (reachable : facts.isUnreachable = false) : flow.out.isUnreachable = false := by
  obtain ⟨bit, has⟩ := (Facts.not_isUnreachable_iff facts).1 reachable
  obtain ⟨after, ends⟩ := total bit
  exact (Facts.not_isUnreachable_iff _).2 ⟨after, (known (.ended after)).2 ⟨bit, has, ends⟩⟩

section Children

variable {children : List (Step × Tree)} (walked : ∀ child ∈ children, Walked child.2)
include walked

theorem walkTrees_matches (here : Path) (facts : Facts) :
    (walkTrees here children facts).Matches facts (evaluateTrees here children) := by
  induction children generalizing facts with
  | nil =>
    rw [walkTrees, evaluateTrees]
    exact Flow.matches_stay facts
  | cons child rest ih =>
    obtain ⟨step, tree⟩ := child
    rw [walkTrees, evaluateTrees]
    have first := (walked (step, tree) List.mem_cons_self).flow (step :: here) facts
    exact first.andThen (ih (fun child member => walked child (.tail _ member)) _)

theorem evaluateTrees_total (here : Path) : (evaluateTrees here children).Total := by
  induction children with
  | nil =>
    rw [evaluateTrees]
    exact .skip
  | cons child rest ih =>
    obtain ⟨step, tree⟩ := child
    rw [evaluateTrees]
    exact ((walked (step, tree) List.mem_cons_self).total (step :: here)).andThen
      (ih fun child member => walked child (.tail _ member))

theorem evaluateTrees_watched (here : Path) : (evaluateTrees here children).Watched := by
  induction children with
  | nil =>
    rw [evaluateTrees]
    exact .skip
  | cons child rest ih =>
    obtain ⟨step, tree⟩ := child
    rw [evaluateTrees]
    exact ((walked (step, tree) List.mem_cons_self).watched (step :: here)).andThen
      (ih fun child member => walked child (.tail _ member))

end Children

theorem Node.tree_mk (span : Span) (form : Form) :
    Node.tree ⟨span, form⟩ = .mk ⟨span, form⟩ form.fields.layout form.fields.children := by
  simp only [Node.tree, Fields.treeOf]

theorem Walked.intro {tree : Tree}
    (flow : ∀ (here : Path) (facts : Facts), facts.isUnreachable = false →
      (walkTree here tree facts).Matches facts (evaluateTree here tree))
    (total : ∀ here : Path, (evaluateTree here tree).Total)
    (watched : ∀ here : Path, (evaluateTree here tree).Watched) : Walked tree := by
  refine ⟨fun here facts => ?_, total, watched⟩
  cases unreachable : facts.isUnreachable with
  | true =>
    obtain ⟨node, layout, children⟩ := tree
    rw [walkTree, if_pos unreachable]
    exact Flow.matches_unreachable unreachable _
  | false => exact flow here facts unreachable

theorem walked_operands {span : Span} {form : Form} {layout : List (Field × Content)}
    {atLeft atRight : Step} {left right : Tree} (short : Bool)
    (evaluation : Evaluation.ofForm form = if short then .shortCircuit else .inOrder)
    (paths : ∀ here : Path,
      evaluateTree here (.mk ⟨span, form⟩ layout [(atLeft, left), (atRight, right)])
        = (evaluateTree (atLeft :: here) left).andThen
          (if short then .either .skip (evaluateTree (atRight :: here) right)
            else evaluateTree (atRight :: here) right))
    (first : Walked left) (second : Walked right) :
    Walked (.mk ⟨span, form⟩ layout [(atLeft, left), (atRight, right)]) := by
  have last : ∀ (here : Path) (facts : Facts), (walkTrees here [(atRight, right)] facts).Matches
      facts (evaluateTree (atRight :: here) right) := by
    intro here facts
    have walked : ∀ child ∈ [(atRight, right)], Walked child.2 :=
      fun child member => List.mem_singleton.1 member ▸ second
    simpa only [evaluateTrees, Paths.andThen_skip] using walkTrees_matches walked here facts
  refine .intro (fun here facts reachable => ?_) (fun here => ?_) fun here => ?_
  · rw [paths, walkTree, if_neg (by simp [reachable])]
    simp only [Node.form, evaluation]
    cases short with
    | true =>
      simp only [if_true, walkShortCircuit]
      exact (first.flow _ facts).andThen ((Flow.matches_stay _).either (last here _))
    | false =>
      simp only [Bool.false_eq_true, if_false]
      rw [walkTrees]
      exact (first.flow _ facts).andThen (last here _)
  · rw [paths]
    refine (first.total _).andThen ?_
    cases short with
    | true => exact .either .skip
    | false => exact second.total _
  · rw [paths]
    refine (first.watched _).andThen ?_
    cases short with
    | true => exact .either .skip (second.watched _)
    | false => exact second.watched _

theorem walked_branches {span : Span} {test yes no : Node} {layout : List (Field × Content)}
    {atTest atYes atNo : Step} {first second third : Tree} (tested : Walked first)
    (taken : Walked second) (other : Walked third) :
    Walked (.mk ⟨span, .conditional test yes no⟩ layout
      [(atTest, first), (atYes, second), (atNo, third)]) := by
  refine .intro (fun here facts reachable => ?_) (fun here => ?_) fun here => ?_
  · simp only [walkTree, evaluateTree, reachable, Bool.false_eq_true, if_false, Node.form,
      Evaluation.ofForm, walkChoice, walkOneOf]
    refine (tested.flow _ facts).andThen ?_
    exact (taken.flow _ _).either (other.flow _ _).either_unreachable
  · simp only [evaluateTree]
    exact (tested.total _).andThen (.either (taken.total _))
  · simp only [evaluateTree]
    exact (tested.watched _).andThen ((taken.watched _).either (other.watched _))

/-- The walk of an expression stands for its paths, by induction on the tree. -/
theorem walked_of_view : ∀ tree : Tree, tree.IsView → Walked tree := by
  refine Tree.view_induction fun span form walked => ?_
  rw [Node.tree_mk] at walked ⊢
  simp only [Tree.children] at walked
  have inOrder := fun here => walkTrees_matches walked here
  have allTotal := fun here => evaluateTrees_total walked here
  have allWatched := fun here => evaluateTrees_watched walked here
  cases form with
  | function _ _ _ _ _ _ | arrowFunction _ _ _ | classDefinition _ _ _ _ _ =>
    refine .intro (fun here facts reachable => ?_) (fun here => ?_) fun here => ?_
    · simp only [walkTree, evaluateTree, reachable, Evaluation.ofForm]
      exact Flow.matches_stay facts
    · simp only [evaluateTree]
      exact .skip
    · simp only [evaluateTree]
      exact .skip
  | call callee arguments =>
    obtain ⟨calleeSpan, calleeForm⟩ := callee
    cases calleeForm with
    | super =>
      refine .intro (fun here facts reachable => ?_) (fun here => ?_) fun here => ?_
      · simp only [walkTree, evaluateTree, reachable, Bool.false_eq_true, if_false, Node.form,
          Evaluation.ofForm]
        have before := inOrder here facts
        refine before.andThen ?_
        exact Flow.matches_superCall _ (before.reachable (allTotal here) reachable)
      · simp only [evaluateTree]
        exact (allTotal here).andThen (.superCall _)
      · simp only [evaluateTree]
        exact (allWatched here).andThen (.superCall _)
    | _ =>
      refine .intro (fun here facts reachable => ?_) (fun here => ?_) fun here => ?_
      · simp only [walkTree, evaluateTree, reachable, Evaluation.ofForm]
        exact inOrder here facts
      · simp only [evaluateTree]
        exact allTotal here
      · simp only [evaluateTree]
        exact allWatched here
  | binary left operator right =>
    simp only [Form.fields] at walked ⊢
    refine walked_operands operator.isLogical rfl (fun here => ?_) (walked _ (.head _))
      (walked _ (.tail _ (.head _)))
    rw [evaluateTree]
  | assignment left operator right =>
    simp only [Form.fields] at walked ⊢
    refine walked_operands operator.isShortCircuit rfl (fun here => ?_) (walked _ (.head _))
      (walked _ (.tail _ (.head _)))
    rw [evaluateTree]
  | conditional test yes no =>
    simp only [Form.fields] at walked ⊢
    exact walked_branches (walked _ (.head _)) (walked _ (.tail _ (.head _)))
      (walked _ (.tail _ (.tail _ (.head _))))
  | _ =>
    refine .intro (fun here facts reachable => ?_) (fun here => ?_) fun here => ?_
    · simp only [walkTree, evaluateTree, reachable, Evaluation.ofForm]
      exact inOrder here facts
    · simp only [evaluateTree]
      exact allTotal here
    · simp only [evaluateTree]
      exact allWatched here

end TemplateLint.Constructor
