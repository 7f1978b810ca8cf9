import TemplateLint.Proofs.Constructor.Follow

/-!
# Parts of code that hold no call

Expressions and targets come to their end, throw, or come to a call that stands in them
(`Paths.Below`). Those that hold no call of `super()` do nothing (`evaluateTree_of_callFree`,
`bindTree_of_callFree`).
-/

namespace TemplateLint.Constructor

open TemplateLint.Syntax

variable (here : Path)

/-! ## Expressions come to their end -/

theorem Paths.skip_andThen (paths : Paths) : Paths.skip.andThen paths = paths := by
  funext bit outcome
  refine propext ⟨?_, fun goes => .inl ⟨bit, rfl, goes⟩⟩
  rintro (⟨between, same, goes⟩ | ⟨rfl, stops⟩)
  · cases same
    exact goes
  · cases stops

theorem Paths.either_self (paths : Paths) : paths.either paths = paths := by
  funext bit outcome
  exact propext or_self_iff

theorem Paths.breaking_guard_either (target : Target) (condition : Bool) (paths : Paths) :
    Paths.breaking target (.either (.guard condition) paths)
      = .either (.guard condition) (.breaking target paths) := by
  funext bit outcome
  refine propext ⟨?_, ?_⟩
  · rintro (⟨jump, after, ⟨_, same⟩ | goes, caught, ends, rfl⟩ | ⟨opened | goes, free⟩)
    · cases same
    · exact .inr (.inl ⟨jump, after, goes, caught, ends, rfl⟩)
    · exact .inl opened
    · exact .inr (.inr ⟨goes, free⟩)
  · rintro (⟨opened, rfl⟩ | ⟨jump, after, goes, caught, ends, rfl⟩ | ⟨goes, free⟩)
    · exact .inr ⟨.inl ⟨opened, rfl⟩, by simp⟩
    · exact .inl ⟨jump, after, .inr goes, caught, ends, rfl⟩
    · exact .inr ⟨.inr goes, free⟩

/-- Paths of something below a place: they come to its end, throw, or come to a call below the
place. -/
def Paths.Below (here : Path) (paths : Paths) : Prop :=
  ∀ bit outcome, paths bit outcome → (∃ after, outcome = .ended after)
    ∨ (∃ after, outcome = .threw after)
    ∨ ∃ site after, outcome = .met site after ∧ here <:+ site.place

namespace Paths.Below

variable {here inner : Path} {paths second : Paths}

theorem skip : Below here .skip := by
  rintro bit _ rfl
  exact .inl ⟨bit, rfl⟩

theorem superCall (span : Span) : Below here (.superCall ⟨here, span⟩) := by
  rintro bit _ (rfl | rfl | rfl)
  · exact .inr (.inr ⟨_, bit, rfl, List.suffix_rfl⟩)
  · exact .inr (.inl ⟨true, rfl⟩)
  · exact .inl ⟨true, rfl⟩

theorem andThen (first : paths.Below here) (next : second.Below here) :
    (paths.andThen second).Below here := by
  rintro bit outcome (⟨between, _, goes⟩ | ⟨goes, _⟩)
  · exact next between outcome goes
  · exact first bit outcome goes

theorem either (first : paths.Below here) (next : second.Below here) :
    (paths.either second).Below here := by
  rintro bit outcome (goes | goes)
  · exact first bit outcome goes
  · exact next bit outcome goes

theorem up (below : paths.Below inner) (inside : here <:+ inner) : paths.Below here := by
  intro bit outcome goes
  rcases below bit outcome goes with ended | threw | ⟨site, after, met, deeper⟩
  · exact .inl ended
  · exact .inr (.inl threw)
  · exact .inr (.inr ⟨site, after, met, inside.trans deeper⟩)

theorem child {step : Step} (below : paths.Below (step :: here)) : paths.Below here :=
  below.up (List.suffix_cons step here)

end Paths.Below

theorem Paths.Below.hereditary : Paths.Hereditary Paths.Below where
  skip _ := .skip
  superCall _ := .superCall
  andThen := .andThen
  either := .either
  child := .child

theorem evaluateTree_below (tree : Tree) : (evaluateTree here tree).Below here :=
  Paths.Below.hereditary.evaluateTree here tree

theorem bindTrees_below {here : Path} {trees : List (Step × Tree)}
    (each : ∀ step tree, (step, tree) ∈ trees → (bindTree (step :: here) tree).Below here) :
    (bindTrees here trees).Below here := by
  induction trees with
  | nil =>
    rw [bindTrees]
    exact .skip
  | cons child rest ih =>
    rw [bindTrees]
    exact (each _ _ (.head _)).andThen (ih fun step tree member => each step tree (.tail _ member))

theorem bindTree_below (tree : Tree) : (bindTree here tree).Below here := by
  induction tree using Tree.children_induction generalizing here with
  | step node layout children ih =>
    obtain ⟨span, form⟩ := node
    have each := fun step tree member => (ih step tree member (step :: here)).child
    unfold bindTree
    split
    · exact bindTrees_below each
    · exact bindTrees_below each
    · exact bindTrees_below each
    · next atKey key atValue value =>
      exact (evaluateTree_below _ key).child.andThen (each _ _ (by simp))
    · next left _ atLeft target atRight value =>
      have given : (Paths.either .skip (evaluateTree (atRight :: here) value)).Below here :=
        .either .skip (evaluateTree_below _ value).child
      split
      · exact given.andThen (each _ _ (by simp))
      · exact .andThen (each _ _ (by simp)) given
    · exact evaluateTree_below here _

theorem evaluate_below (node : Node) : (evaluate here node).Below here :=
  evaluateTree_below here node.tree

theorem evaluate?_below (node? : Option Node) :
    (evaluate? here node?).Below here := by
  cases node? with
  | none => exact .skip
  | some node => exact evaluate_below here node

theorem bind_below (target : Node) : (bind here target).Below here :=
  bindTree_below here target.tree

theorem bind?_below (target? : Option Node) : (bind? here target?).Below here := by
  cases target? with
  | none => exact .skip
  | some target => exact bind_below here target

theorem declare_below (index : Nat) (declarators : List Node) :
    (declare here index declarators).Below here := by
  induction declarators generalizing index with
  | nil => exact .skip
  | cons declarator rest ih =>
    obtain ⟨span, form⟩ := declarator
    cases form with
    | variableDeclarator target init =>
      exact (evaluate?_below _ init).child.child.andThen
        ((bind_below _ target).child.child.andThen (ih (index + 1)))
    | _ => exact ih (index + 1)

theorem bindHead_below (head : Node) : (bindHead here head).Below here := by
  obtain ⟨span, form⟩ := head
  cases form with
  | variableDeclaration declarations kind => exact declare_below here 0 declarations
  | _ => exact bind_below here _

/-! ## Expressions without calls -/

mutual

/-- No call of `super()` in an expression, outside its functions and classes. -/
def callFree : Tree → Bool
  | .mk ⟨_, .function ..⟩ _ _ | .mk ⟨_, .arrowFunction ..⟩ _ _
  | .mk ⟨_, .classDefinition ..⟩ _ _ => true
  | .mk ⟨_, .call ⟨_, .super⟩ _⟩ _ _ => false
  | .mk _ _ children => callFreeAll children

def callFreeAll : List (Step × Tree) → Bool
  | [] => true
  | (_, tree) :: rest => callFree tree && callFreeAll rest

end

theorem evaluateTrees_of_callFree {here : Path} {trees : List (Step × Tree)}
    (each : ∀ step tree, (step, tree) ∈ trees → callFree tree = true →
      evaluateTree (step :: here) tree = .skip)
    (free : callFreeAll trees = true) : evaluateTrees here trees = .skip := by
  induction trees with
  | nil => rw [evaluateTrees]
  | cons child rest ih =>
    rw [callFreeAll, Bool.and_eq_true] at free
    rw [evaluateTrees, each _ _ (.head _) free.1,
      ih (fun step tree member => each step tree (.tail _ member)) free.2, Paths.skip_andThen]

theorem evaluateTree_of_callFree (tree : Tree) (free : callFree tree = true) :
    evaluateTree here tree = .skip := by
  induction tree using Tree.children_induction generalizing here with
  | step node layout children ih =>
    obtain ⟨span, form⟩ := node
    have each := fun step tree member => ih step tree member (step :: here)
    unfold evaluateTree
    split
    · rfl
    · rfl
    · rfl
    · cases free
    · simp only [callFree, callFreeAll, Bool.and_eq_true] at free
      rw [each _ _ (by simp) free.1, each _ _ (by simp) free.2.1, each _ _ (by simp) free.2.2.1,
        Paths.skip_andThen, Paths.either_self]
    · simp only [callFree, callFreeAll, Bool.and_eq_true] at free
      rw [each _ _ (by simp) free.1, each _ _ (by simp) free.2.1, Paths.skip_andThen,
        Paths.either_self, ite_self]
    · simp only [callFree, callFreeAll, Bool.and_eq_true] at free
      rw [each _ _ (by simp) free.1, each _ _ (by simp) free.2.1, Paths.skip_andThen,
        Paths.either_self, ite_self]
    · next noFunction noArrow noClass noCall _ _ _ =>
      unfold callFree at free
      split at free
      next same => cases same; exact (noFunction _ _ _ _ _ _ rfl).elim
      next same => cases same; exact (noArrow _ _ _ rfl).elim
      next same => cases same; exact (noClass _ _ _ _ _ rfl).elim
      next => cases free
      next same =>
        cases same
        exact evaluateTrees_of_callFree each free

theorem bindTrees_of_callFree {here : Path} {trees : List (Step × Tree)}
    (each : ∀ step tree, (step, tree) ∈ trees → callFree tree = true →
      bindTree (step :: here) tree = .skip)
    (free : callFreeAll trees = true) : bindTrees here trees = .skip := by
  induction trees with
  | nil => rw [bindTrees]
  | cons child rest ih =>
    rw [callFreeAll, Bool.and_eq_true] at free
    rw [bindTrees, each _ _ (.head _) free.1,
      ih (fun step tree member => each step tree (.tail _ member)) free.2, Paths.skip_andThen]

theorem bindTree_of_callFree (tree : Tree) (free : callFree tree = true) :
    bindTree here tree = .skip := by
  induction tree using Tree.children_induction generalizing here with
  | step node layout children ih =>
    obtain ⟨span, form⟩ := node
    have each := fun step tree member => ih step tree member (step :: here)
    unfold bindTree
    split
    · exact bindTrees_of_callFree each free
    · exact bindTrees_of_callFree each free
    · exact bindTrees_of_callFree each free
    · simp only [callFree, callFreeAll, Bool.and_eq_true] at free
      rw [evaluateTree_of_callFree _ _ free.1, each _ _ (by simp) free.2.1, Paths.skip_andThen]
    · simp only [callFree, callFreeAll, Bool.and_eq_true] at free
      rw [evaluateTree_of_callFree _ _ free.2.1, each _ _ (by simp) free.1, Paths.either_self,
        Paths.skip_andThen, ite_self]
    · exact evaluateTree_of_callFree here _ free

def callFree? : Option Node → Bool
  | none => true
  | some node => callFree node.tree

theorem evaluate_of_callFree {node : Node} (free : callFree node.tree = true) :
    evaluate here node = .skip := evaluateTree_of_callFree here node.tree free

theorem evaluate?_of_callFree {node? : Option Node} (free : callFree? node? = true) :
    evaluate? here node? = .skip := by
  cases node? with
  | none => rfl
  | some node => exact evaluate_of_callFree here free

theorem bind_of_callFree {target : Node} (free : callFree target.tree = true) :
    bind here target = .skip := bindTree_of_callFree here target.tree free

theorem bind?_of_callFree {target? : Option Node} (free : callFree? target? = true) :
    bind? here target? = .skip := by
  cases target? with
  | none => rfl
  | some target => exact bind_of_callFree here free

theorem bindAll_of_callFree (field : Field) (index : Nat) {targets : List Node}
    (free : ∀ target ∈ targets, callFree target.tree = true) :
    bindAll here field index targets = .skip := by
  induction targets generalizing index with
  | nil => rfl
  | cons target rest ih =>
    obtain ⟨first, others⟩ := List.forall_mem_cons.1 free
    rw [bindAll, bind_of_callFree _ first, ih (index + 1) others, Paths.skip_andThen]

end TemplateLint.Constructor
