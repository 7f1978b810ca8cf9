import TemplateLint.Proofs.Constructor.Evaluated
import TemplateLint.Proofs.Syntax.Places

/-!
# Calls that are come to

Which places a path comes to does not depend on the bit. So although the paths that are followed
pass some parts by, and see another bit after them, they come to wherever any path comes to
(`Paths.Tracks`). Exceptions are left out, because a catch block is entered from the start of its
try block anyway; and so are calls in the parts that are passed by, which are named by the node that
holds them and the field that they are in (`isUnread`, `Overlooked`).
-/

/-! ## Children of fields -/

namespace TemplateLint.Syntax

namespace Fields

@[simp] theorem children_append (first second : Fields) :
    (first ++ second).children = first.children ++ second.children := rfl

@[simp] theorem mem_children_one {field : Field} {tree : Tree} {child : Step × Tree} :
    child ∈ (one field tree).children ↔ child = (⟨field, 0⟩, tree) := List.mem_singleton

@[simp] theorem mem_children_optional {field : Field} {node : Node} {child : Step × Tree} :
    child ∈ (optional field (treeOf? (some node))).children ↔ child = (⟨field, 0⟩, node.tree) := by
  rw [treeOf?, optional, mem_children_one]

theorem mem_children_many {field : Field} {nodes : List Node} {index : Nat} {node : Node}
    (found : nodes[index]? = some node) :
    (⟨field, index⟩, node.tree) ∈ (many field (treesOf nodes)).children := by
  rw [children_treesOf]
  exact List.mem_map.2 ⟨(node, index), List.mem_zipIdx_iff_getElem?.2 found, rfl⟩

end Fields

end TemplateLint.Syntax

namespace TemplateLint.Constructor

open TemplateLint.Syntax

/-! ## Paths that come to the same places -/

/-- What need not be come to: exceptions, and calls in parts that are passed by. -/
def Outcome.Excused (missed : CallSite → Prop) (outcome : Outcome) : Prop :=
  (∃ after, outcome = .threw after) ∨ ∃ site after, outcome = .met site after ∧ missed site

/-- Wherever one path comes to, another comes to as well, from either bit. -/
def Paths.Tracks (missed : CallSite → Prop) (paths followed : Paths) : Prop :=
  ∀ bit outcome, paths bit outcome →
    outcome.Excused missed ∨ ∀ other, ∃ after, followed other (outcome.withCalled after)

/-- Every path goes on or is excused. -/
def Paths.Passes (missed : CallSite → Prop) (paths : Paths) : Prop :=
  ∀ bit outcome, paths bit outcome → (∃ after, outcome = .ended after) ∨ outcome.Excused missed

theorem Paths.Below.passes {missed : CallSite → Prop} {here : Path} {paths : Paths}
    (below : paths.Below here) (all : ∀ site, here <:+ site.place → missed site) :
    paths.Passes missed := by
  intro bit outcome goes
  rcases below bit outcome goes with ended | threw | ⟨site, after, met, inside⟩
  · exact .inl ended
  · exact .inr (.inl threw)
  · exact .inr (.inr ⟨site, after, met, all site inside⟩)

namespace Paths.Passes

variable {missed : CallSite → Prop} {paths second : Paths}

theorem skip : Passes missed .skip := by
  rintro bit _ rfl
  exact .inl ⟨bit, rfl⟩

theorem andThen (first : paths.Passes missed) (next : second.Passes missed) :
    (paths.andThen second).Passes missed := by
  rintro bit outcome (⟨between, _, goes⟩ | ⟨goes, _⟩)
  · exact next between outcome goes
  · exact first bit outcome goes

end Paths.Passes

namespace Paths.Tracks

variable {missed : CallSite → Prop} {paths followed second next : Paths}

theorem of_uniform (uniform : paths.Uniform) : Tracks missed paths paths :=
  fun bit outcome goes => .inr fun other => uniform bit other outcome goes

section

variable (tracks : Tracks missed paths followed)

include tracks

theorem reached {bit : Bool} {outcome : Outcome} (goes : paths bit outcome)
    (noThrow : ∀ after, outcome ≠ .threw after)
    (noCall : ∀ site after, outcome ≠ .met site after) (other : Bool) :
    ∃ after, followed other (outcome.withCalled after) := by
  rcases tracks bit outcome goes with (⟨after, thrown⟩ | ⟨site, after, met, _⟩) | reached
  · exact absurd thrown (noThrow after)
  · exact absurd met (noCall site after)
  · exact reached other

theorem ended {bit after : Bool} (ends : paths bit (.ended after)) (other : Bool) :
    ∃ after, followed other (.ended after) :=
  tracks.reached ends (by simp) (by simp) other

theorem mono (more : ∀ bit outcome, followed bit outcome → next bit outcome) :
    Tracks missed paths next :=
  fun bit outcome goes => (tracks bit outcome goes).imp_right fun reached other =>
    (reached other).imp fun _ => more other _

theorem breaking (target : Target) :
    Tracks missed (Paths.breaking target paths) (Paths.breaking target followed) := by
  rintro bit outcome (⟨jump, after, goes, caught, ends, rfl⟩ | ⟨goes, free⟩)
  · refine .inr fun other => ?_
    obtain ⟨later, goes⟩ := tracks.reached goes (by simp) (by simp) other
    exact ⟨later, .inl ⟨jump, later, goes, caught, ends, rfl⟩⟩
  · refine (tracks bit outcome goes).imp_right fun reached other => ?_
    obtain ⟨after, goes⟩ := reached other
    refine ⟨after, .inr ⟨goes, fun jump later same => ?_⟩⟩
    obtain ⟨before, rfl⟩ := Outcome.exists_eq_withCalled same
    exact free jump before rfl

theorem continuing (target : Target) :
    Tracks missed (Paths.continuing target paths) (Paths.continuing target followed) := by
  rintro bit outcome (⟨jump, after, goes, caught, again, rfl⟩ | goes)
  · refine .inr fun other => ?_
    obtain ⟨later, goes⟩ := tracks.reached goes (by simp) (by simp) other
    exact ⟨later, .inl ⟨jump, later, goes, caught, again, rfl⟩⟩
  · exact (tracks bit outcome goes).imp_right fun reached other => (reached other).imp fun _ => .inr

theorem aside : Tracks missed paths.aside followed.aside := by
  rintro bit outcome ⟨goes, stops⟩
  refine (tracks bit outcome goes).imp_right fun reached other => ?_
  obtain ⟨after, goes⟩ := reached other
  exact ⟨after, goes, by rw [Outcome.goesOn_withCalled, stops]⟩

end

theorem andThen (first : Tracks missed paths followed) (rest : Tracks missed second next) :
    Tracks missed (paths.andThen second) (followed.andThen next) := by
  rintro bit outcome (⟨between, ends, goes⟩ | ⟨goes, stops⟩)
  · refine (rest between outcome goes).imp_right fun reached other => ?_
    obtain ⟨middle, ends⟩ := first.ended ends other
    obtain ⟨after, goes⟩ := reached middle
    exact ⟨after, .inl ⟨middle, ends, goes⟩⟩
  · refine (first bit outcome goes).imp_right fun reached other => ?_
    obtain ⟨after, goes⟩ := reached other
    exact ⟨after, .inr ⟨goes, by rw [Outcome.goesOn_withCalled, stops]⟩⟩

theorem passing (passes : paths.Passes missed) (rest : Tracks missed second next) :
    Tracks missed (paths.andThen second) next := by
  rintro bit outcome (⟨between, _, goes⟩ | ⟨goes, stops⟩)
  · exact rest between outcome goes
  · rcases passes bit outcome goes with ⟨after, rfl⟩ | excused
    · cases stops
    · exact .inl excused

theorem skipped (passes : paths.Passes missed) : Tracks missed paths .skip := by
  intro bit outcome goes
  rcases passes bit outcome goes with ⟨after, rfl⟩ | excused
  · exact .inr fun other => ⟨other, rfl⟩
  · exact .inl excused

theorem afterwards (first : Tracks missed paths (.either .skip followed))
    (rest : Tracks missed second followed) : Tracks missed (paths.andThen second) followed := by
  rintro bit outcome (⟨between, _, goes⟩ | ⟨goes, stops⟩)
  · exact rest between outcome goes
  · refine (first bit outcome goes).imp_right fun reached other => ?_
    obtain ⟨after, skips | goes⟩ := reached other
    · rw [← Outcome.goesOn_withCalled outcome after, skips] at stops
      cases stops
    · exact ⟨after, goes⟩

theorem skip_or_aside (uniform : paths.Uniform) :
    Tracks missed paths (.either .skip paths.aside) := by
  intro bit outcome goes
  rcases outcome.ended_or_stops with ⟨after, rfl⟩ | stops
  · exact .inr fun other => ⟨other, .inl rfl⟩
  · refine .inr fun other => ?_
    obtain ⟨after, goes⟩ := uniform bit other outcome goes
    exact ⟨after, .inr ⟨goes, by rw [Outcome.goesOn_withCalled, stops]⟩⟩

theorem both (first : Tracks missed paths followed) (rest : Tracks missed second followed) :
    Tracks missed (paths.either second) followed := by
  rintro bit outcome (goes | goes)
  · exact first bit outcome goes
  · exact rest bit outcome goes

theorem either (first : Tracks missed paths followed) (rest : Tracks missed second next) :
    Tracks missed (paths.either second) (followed.either next) :=
  both (first.mono fun _ _ => .inl) (rest.mono fun _ _ => .inr)

theorem loop (target : Target) {leave out : Paths} (again : Tracks missed paths followed)
    (leaves : Tracks missed leave out) :
    Tracks missed (Paths.loop target paths leave) (Paths.loop target followed out) := by
  have last : Tracks missed (Paths.breaking target (.lastRound paths leave))
      (Paths.breaking target (.lastRound followed out)) :=
    (leaves.either again.aside).breaking target
  rintro bit outcome ⟨head, _, goes⟩
  refine (last head outcome goes).imp_right fun reached other => ?_
  exact (reached other).imp fun _ goes => ⟨other, .refl, goes⟩

theorem catching {handler handled : Paths} (tracks : Tracks missed paths followed)
    (starts : ∀ bit, followed bit (.threw bit)) (handles : Tracks missed handler handled) :
    Tracks missed (Paths.catching paths handler) (Paths.catching followed handled) := by
  rintro bit outcome (⟨thrown, _, rest⟩ | ⟨goes, free⟩)
  · refine (handles thrown outcome rest).imp_right fun reached other => ?_
    exact (reached other).imp fun _ goes => .inl ⟨other, starts other, goes⟩
  · refine (tracks bit outcome goes).imp_right fun reached other => ?_
    obtain ⟨after, goes⟩ := reached other
    refine ⟨after, .inr ⟨goes, fun thrown same => ?_⟩⟩
    obtain ⟨before, rfl⟩ := Outcome.exists_eq_withCalled same
    exact free before rfl

theorem enters_finishing {block last : Paths} (starts : ∀ bit, block bit (.threw bit))
    {outcome : Outcome} (stops : outcome.goesOn = false)
    (reached : ∀ other, ∃ after, last other (outcome.withCalled after)) (other : Bool) :
    ∃ after, Paths.finishing block followed last other (outcome.withCalled after) := by
  by_cases ends : ∃ middle, followed other (.ended middle)
  · obtain ⟨middle, ends⟩ := ends
    exact (reached middle).imp fun _ goes => .inl ⟨middle, ends, goes⟩
  · refine (reached other).imp fun _ goes => .inr (.inr (.inr ⟨?_, other, starts other, goes, ?_⟩))
    · exact fun middle ended => ends ⟨middle, ended⟩
    · rw [Outcome.goesOn_withCalled, stops]

theorem finishing {block last lasts : Paths} (starts : ∀ bit, block bit (.threw bit))
    (tracks : Tracks missed paths followed) (through : Tracks missed last lasts) :
    Tracks missed (paths.finallyThrough last) (Paths.finishing block followed lasts) := by
  rintro bit outcome (⟨before, after, goes, noCall, ends, rfl⟩ | ⟨before, goes, _, rest, stops⟩ |
    ⟨goes, site, after, rfl⟩)
  · -- The finally block comes to its end, and the path goes on to where it was going.
    cases before with
    | threw thrown => exact .inl (.inl ⟨after, rfl⟩)
    | met site called => exact absurd rfl (noCall site called)
    | ended called =>
      refine .inr fun other => ?_
      obtain ⟨middle, goes⟩ := tracks.ended goes other
      obtain ⟨later, ends⟩ := through.ended ends middle
      exact ⟨later, .inl ⟨middle, goes, ends⟩⟩
    | returned called =>
      refine .inr fun other => ?_
      obtain ⟨middle, goes⟩ := tracks.reached goes (by simp) (by simp) other
      obtain ⟨later, ends⟩ := through.ended ends middle
      exact ⟨later, .inr (.inl ⟨middle, goes, .inl ⟨later, ends, rfl⟩⟩)⟩
    | jumped jump called =>
      refine .inr fun other => ?_
      obtain ⟨later, goes⟩ := tracks.reached goes (by simp) (by simp) other
      exact ⟨later, .inr (.inr (.inl ⟨goes, rfl, by simp [Outcome.withCalled]⟩))⟩
  · refine (through before.called outcome rest).imp_right fun reached => ?_
    exact enters_finishing starts stops reached
  · refine (tracks bit _ goes).imp_right fun reached other => ?_
    obtain ⟨later, goes⟩ := reached other
    exact ⟨later, .inr (.inr (.inl ⟨goes, rfl, by simp [Outcome.withCalled]⟩))⟩

end Paths.Tracks

/-! ## Parts that are passed by -/

/-- The parts of a node that the analysis does not go through, by their fields. -/
def isUnread : Form → Field → Bool
  | .function .., .params | .variableDeclarator .., .id | .forInStatement .., .left
  | .forOfStatement .., .left | .catchClause .., .param | .exportNamed .., .declaration
  | .exportDefault .., .declaration => true
  | _, _ => false

/-- A call in a part of a constructor, which itself is at the given place, that the analysis does
not go through. -/
def Overlooked (method : Node) (origin : Path) (site : CallSite) : Prop :=
  ∃ outer node inner step, method.tree.nodeAt? outer = some node
    ∧ isUnread node.form step.field = true ∧ site.place = inner ++ step :: (outer ++ origin)

/-- The node of a method at a place, for a method that itself stands at `origin`. -/
def Stands (method : Node) (origin here : Path) (node : Node) : Prop :=
  ∃ outer, here = outer ++ origin ∧ method.tree.nodeAt? outer = some node

namespace Stands

variable {method node : Node} {origin here : Path} {span : Span} {form : Form}

theorem root (method : Node) (origin : Path) : Stands method origin origin method :=
  ⟨[], rfl, by rw [Tree.nodeAt?, Tree.at?, Option.map_some, Node.node_tree]⟩

theorem item (stands : Stands method origin here ⟨span, form⟩) {field : Field} {index : Nat}
    (listed : (⟨field, index⟩, node.tree) ∈ form.fields.children) :
    Stands method origin (here.item field index) node := by
  obtain ⟨outer, rfl, found⟩ := stands
  have children : (Node.tree ⟨span, form⟩).children = form.fields.children := by
    rw [Node.tree_mk, Tree.children]
  exact ⟨_, rfl, (Tree.nodeAt?_cons method.isView_tree found listed).trans (by rw [Node.node_tree])⟩

theorem child (stands : Stands method origin here ⟨span, form⟩) {field : Field}
    (listed : (⟨field, 0⟩, node.tree) ∈ form.fields.children) :
    Stands method origin (here.child field) node := stands.item listed

theorem overlooked (stands : Stands method origin here ⟨span, form⟩) {field : Field} {index : Nat}
    (unread : isUnread form field = true) {site : CallSite}
    (inside : here.item field index <:+ site.place) : Overlooked method origin site := by
  obtain ⟨outer, rfl, found⟩ := stands
  obtain ⟨inner, place⟩ := inside
  exact ⟨outer, _, inner, ⟨field, index⟩, found, unread, place.symm⟩

theorem passes (stands : Stands method origin here ⟨span, form⟩) {field : Field} {index : Nat}
    (unread : isUnread form field = true) {paths : Paths}
    (below : paths.Below (here.item field index)) : paths.Passes (Overlooked method origin) :=
  below.passes fun _ => stands.overlooked unread

end Stands

def StandsAll (method : Node) (origin here : Path) (field : Field) (index : Nat)
    (nodes : List Node) : Prop :=
  ∀ offset node, nodes[offset]? = some node →
    Stands method origin (here.item field (index + offset)) node

namespace StandsAll

variable {method node : Node} {origin here : Path} {field : Field} {index : Nat}
  {nodes rest : List Node}

theorem of_children {span : Span} {form : Form} (stands : Stands method origin here ⟨span, form⟩)
    (listed : (Fields.many field (treesOf nodes)).children ⊆ form.fields.children) :
    StandsAll method origin here field 0 nodes := by
  intro offset node found
  rw [Nat.zero_add]
  exact stands.item (listed (Fields.mem_children_many found))

theorem consequent {span : Span} {test : Option Node}
    (stands : Stands method origin here ⟨span, .switchCase test nodes⟩) :
    StandsAll method origin here .consequent 0 nodes := of_children stands (by simp [Form.fields])

theorem head (stands : StandsAll method origin here field index (node :: rest)) :
    Stands method origin (here.item field index) node := stands 0 node rfl

theorem tail (stands : StandsAll method origin here field index (node :: rest)) :
    StandsAll method origin here field (index + 1) rest := by
  intro offset other found
  have later := stands (offset + 1) other found
  rwa [← Nat.add_assoc, Nat.add_right_comm] at later

end StandsAll

/-! ## The paths of statements -/

section Statements

variable {method : Node} {origin : Path}

theorem evaluate_tracks {missed : CallSite → Prop} (here : Path) (node : Node) :
    (evaluate here node).Tracks missed (evaluate here node) :=
  .of_uniform (evaluate_uniform here node)

theorem evaluate?_tracks {missed : CallSite → Prop} (here : Path) (node? : Option Node) :
    (evaluate? here node?).Tracks missed (evaluate? here node?) :=
  .of_uniform (Paths.Uniform.kept.evaluate? here node?)

theorem declare_tracks (here : Path) (index : Nat) (declarators : List Node)
    (stands : StandsAll method origin here .declarations index declarators) :
    (declare here index declarators).Tracks (Overlooked method origin)
      (evaluateValues here index declarators) := by
  induction declarators generalizing index with
  | nil => exact .of_uniform .skip
  | cons declarator rest ih =>
    have others := ih (index + 1) stands.tail
    obtain ⟨span, form⟩ := declarator
    cases form with
    | variableDeclarator target init =>
      exact (evaluate?_tracks _ init).andThen
        (.passing (stands.head.passes rfl (bind_below _ target)) others)
    | _ => exact others

theorem performInit_tracks (here : Path) (init : Option Node)
    (stands : ∀ node ∈ init, Stands method origin here node) :
    (performInit here init).Tracks (Overlooked method origin) (followInit here init) := by
  rcases init with _ | ⟨span, form⟩
  · exact .of_uniform .skip
  · cases form with
    | variableDeclaration declarations kind =>
      refine .either (.of_uniform Paths.Uniform.kept.threw) (declare_tracks here 0 declarations ?_)
      exact .of_children (stands _ rfl) (by simp [Form.fields])
    | _ =>
      exact evaluate_tracks here _

theorem performTests_tracks {missed : CallSite → Prop} (here : Path) (index : Nat)
    (cases : List Node) :
    (performTests here index cases).Tracks missed
      (.either .skip (followFromAny here index cases)) := by
  induction cases generalizing index with
  | nil => exact (Paths.Tracks.of_uniform .skip).mono fun _ _ => .inl
  | cons node rest ih =>
    obtain ⟨span, form⟩ := node
    cases form with
    | switchCase test consequent =>
      refine .afterwards (.mono (.skip_or_aside (Paths.Uniform.kept.evaluate? _ test)) ?_)
        ((ih (index + 1)).mono ?_)
      · rintro bit outcome (skips | goes)
        · exact .inl skips
        · exact .inr (.inr (.inl goes))
      · rintro bit outcome (skips | goes)
        · exact .inl skips
        · exact .inr (.inr (.inr goes))
    | _ =>
      exact ih (index + 1)

mutual

/-- **Wherever a path of a statement comes to, one that is followed comes to as well.** -/
theorem perform_tracks (labels : List String) (here : Path) :
    ∀ node : Node, Stands method origin here node →
      (perform .always labels here node).Tracks (Overlooked method origin) (follow labels here node)
  | ⟨span, form⟩, stands => by
    exact .either (.of_uniform Paths.Uniform.kept.threw)
      (performForm_tracks labels here span form stands)

theorem performForm_tracks (labels : List String) (here : Path) (span : Span) (form : Form)
    (stands : Stands method origin here ⟨span, form⟩) :
    (performForm .always labels here form).Tracks (Overlooked method origin)
      (followForm labels here form) := by
  cases form with
  | block body =>
    exact performAll_tracks here .body 0 body (.of_children stands (by simp [Form.fields]))
  | expressionStatement expression =>
    exact evaluate_tracks _ expression
  | variableDeclaration declarations kind =>
    exact declare_tracks here 0 declarations (.of_children stands (by simp [Form.fields]))
  | exportNamed declaration specifiers source =>
    rcases declaration with _ | ⟨inner, form⟩
    · exact .of_uniform .skip
    · cases form with
      | variableDeclaration declarations kind =>
        -- the analysis passes exported declarations by
        exact .skipped (stands.passes rfl (declare_below _ 0 declarations))
      | _ =>
        exact .of_uniform .skip
  | exportDefault declaration =>
    exact .skipped (stands.passes rfl (evaluate_below _ declaration))
  | ifStatement test consequent alternate =>
    refine (evaluate_tracks _ test).andThen (.either ?_ ?_)
    · exact perform_tracks [] _ consequent (stands.child (by simp [Form.fields]))
    · exact perform?_tracks _ alternate fun node found => by
        cases found
        exact stands.child (by simp [Form.fields])
  | returnStatement argument =>
    cases argument with
    | none =>
      exact .of_uniform (Paths.Uniform.kept.returned id)
    | some argument =>
      rw [performForm, followForm]
      exact (evaluate_tracks _ argument).andThen (.of_uniform (Paths.Uniform.kept.returned _))
  | throwStatement argument =>
    rw [performForm, followForm]
    exact (evaluate_tracks _ argument).andThen (.of_uniform Paths.Uniform.kept.threw)
  | breakStatement label | continueStatement label =>
    rw [performForm, followForm]
    exact .of_uniform (Paths.Uniform.kept.jumped _)
  | labeledStatement label body =>
    have inside : Stands method origin (here.child .body) body :=
      stands.child (by simp [Form.fields])
    rw [performForm, followForm]
    split
    · exact perform_tracks _ _ body inside
    · exact (perform_tracks _ _ body inside).breaking _
  | whileStatement test body =>
    have round := perform_tracks [] (here.child .body) body (stands.child (by simp [Form.fields]))
      |>.continuing (loopTarget labels)
    have tested : (evaluate (here.child .test) test).Tracks (Overlooked method origin) _ :=
      evaluate_tracks _ test
    rw [performForm, followForm]
    exact .loop _ (tested.andThen (.andThen (.of_uniform (.guard _)) round))
      (tested.andThen (.of_uniform (.guard _)))
  | doWhileStatement body test =>
    have round := perform_tracks [] (here.child .body) body (stands.child (by simp [Form.fields]))
      |>.continuing (loopTarget labels)
    have tested := round.andThen (evaluate_tracks (here.child .test) test)
    rw [performForm, followForm]
    exact .loop _ (tested.andThen (.of_uniform (.guard _)))
      (tested.andThen (.of_uniform (.guard _)))
  | forStatement init test update body =>
    have round := perform_tracks [] (here.child .body) body (stands.child (by simp [Form.fields]))
      |>.continuing (loopTarget labels)
    have tested : (evaluate? (here.child .test) test).Tracks (Overlooked method origin) _ :=
      evaluate?_tracks _ test
    have updated := round.andThen (evaluate?_tracks (here.child .update) update)
    rw [performForm, followForm]
    refine .andThen (performInit_tracks _ init fun node found => ?_) (.loop _ ?_ ?_)
    · cases found
      exact stands.child (by simp [Form.fields])
    · exact tested.andThen (.andThen (.of_uniform (.guard _)) updated)
    · exact tested.andThen (.of_uniform (.guard _))
  | forInStatement left right body | forOfStatement left right body =>
    have round := perform_tracks [] (here.child .body) body (stands.child (by simp [Form.fields]))
      |>.continuing (loopTarget labels)
    rw [performForm, followForm]
    refine (evaluate_tracks _ right).andThen (.loop _ ?_ (.of_uniform .skip))
    -- what a round binds is passed by
    exact .passing (stands.passes rfl (bindHead_below _ left)) round
  | switchStatement discriminant cases =>
    have inside : StandsAll method origin here .cases 0 cases :=
      .of_children stands (by simp [Form.fields])
    rw [performForm, followForm, ← Paths.breaking_guard_either]
    -- either a test fits, or all are evaluated and the default case is taken, if there is one
    refine (evaluate_tracks _ discriminant).andThen (.breaking (.both ?_ (.afterwards ?_ ?_)) _)
    · exact (performFromFit_tracks here 0 cases inside).mono fun _ _ => .inr
    · exact (performTests_tracks here 0 cases).mono fun _ _ => Or.imp_right .inr
    · exact .either (.of_uniform (.guard _)) (performFromDefault_tracks here 0 cases inside)
  | tryStatement block handler finalizer =>
    have blocks := perform_tracks [] (here.child .block) block
      (stands.child (by simp [Form.fields]))
    have starts := follow_starts [] (here.child .block) block
    have caught := performCaught_tracks (here.child .handler) blocks starts handler
      fun node found => by
        cases found
        exact stands.child (by simp [Form.fields])
    cases finalizer with
    | none =>
      rw [performForm, followForm]
      exact caught
    | some finalizer =>
      rw [performForm, followForm]
      exact .finishing starts caught
        (perform_tracks [] _ finalizer (stands.child (by simp [Form.fields])))
  | _ =>
    simp only [performForm, followForm]
    exact .of_uniform .skip

theorem performAll_tracks (here : Path) (field : Field) (index : Nat) :
    ∀ nodes : List Node, StandsAll method origin here field index nodes →
      (performAll .always here field index nodes).Tracks (Overlooked method origin)
        (followAll here field index nodes)
  | [], _ => by
    exact .of_uniform .skip
  | node :: rest, stands => by
    exact (perform_tracks [] _ node stands.head).andThen
      (performAll_tracks here field (index + 1) rest stands.tail)

theorem perform?_tracks (here : Path) :
    ∀ node? : Option Node, (∀ node ∈ node?, Stands method origin here node) →
      (perform? .always here node?).Tracks (Overlooked method origin) (follow? here node?)
  | none, _ => by
    exact .of_uniform .skip
  | some node, stands => by
    exact perform_tracks [] here node (stands node rfl)

theorem performFromFit_tracks (here : Path) (index : Nat) :
    ∀ cases : List Node, StandsAll method origin here .cases index cases →
      (performFromFit .always here index cases).Tracks (Overlooked method origin)
        (followFromAny here index cases)
  | [], _ => by
    exact .of_uniform .nowhere
  | ⟨span, form⟩ :: rest, stands => by
    have others := performFromFit_tracks here (index + 1) rest stands.tail
    cases form with
    | switchCase test consequent =>
      cases test with
      | none =>
        rw [performFromFit, followFromAny]
        · exact others.mono fun _ _ goes => .inr (.inr goes)
        · simp
      | some test =>
        have inside := performAll_tracks _ .consequent 0 consequent (.consequent stands.head)
        have taken := inside.andThen (performThrough_tracks here (index + 1) rest stands.tail)
        refine .afterwards ((Paths.Tracks.skip_or_aside (evaluate_uniform _ test)).mono ?_)
          ((taken.either others).mono fun _ _ => .inr)
        exact fun _ _ => Or.imp_right .inl
    | _ =>
      exact others

theorem performFromDefault_tracks (here : Path) (index : Nat) :
    ∀ cases : List Node, StandsAll method origin here .cases index cases →
      (performFromDefault .always here index cases).Tracks (Overlooked method origin)
        (followFromAny here index cases)
  | [], _ => by
    exact .of_uniform .nowhere
  | ⟨span, form⟩ :: rest, stands => by
    have others := performFromDefault_tracks here (index + 1) rest stands.tail
    cases form with
    | switchCase test consequent =>
      cases test with
      | none =>
        have inside := performAll_tracks _ .consequent 0 consequent (.consequent stands.head)
        have taken := inside.andThen (performThrough_tracks here (index + 1) rest stands.tail)
        exact (taken.either others).mono fun _ _ => .inr
      | some test =>
        rw [performFromDefault, followFromAny]
        · exact others.mono fun _ _ goes => .inr (.inr goes)
        · simp
    | _ =>
      exact others

theorem performThrough_tracks (here : Path) (index : Nat) :
    ∀ cases : List Node, StandsAll method origin here .cases index cases →
      (performThrough .always here index cases).Tracks (Overlooked method origin)
        (followThrough here index cases)
  | [], _ => by
    exact .of_uniform .skip
  | ⟨span, form⟩ :: rest, stands => by
    have others := performThrough_tracks here (index + 1) rest stands.tail
    cases form with
    | switchCase test consequent =>
      exact (performAll_tracks _ .consequent 0 consequent (.consequent stands.head)).andThen others
    | _ =>
      exact others

theorem performCaught_tracks (here : Path) {block followed : Paths}
    (blocks : block.Tracks (Overlooked method origin) followed)
    (starts : ∀ bit, followed bit (.threw bit)) :
    ∀ handler : Option Node, (∀ node ∈ handler, Stands method origin here node) →
      (performCaught .always here block handler).Tracks (Overlooked method origin)
        (followCaught here followed handler)
  | none, _ => by
    exact blocks
  | some ⟨span, form⟩, stands => by
    have clause := stands _ rfl
    cases form with
    | catchClause param body =>
      refine blocks.catching starts (.passing (clause.passes rfl (bind?_below _ param)) ?_)
      exact perform_tracks [] _ body (clause.child (by simp [Form.fields]))
    | _ =>
      exact blocks

end

theorem bindAll_passes {here : Path} {span : Span} {form : Form} {field : Field}
    (stands : Stands method origin here ⟨span, form⟩) (unread : isUnread form field = true)
    (index : Nat) (targets : List Node) :
    (bindAll here field index targets).Passes (Overlooked method origin) := by
  induction targets generalizing index with
  | nil => exact .skip
  | cons target rest ih =>
    exact (stands.passes unread (bind_below _ target)).andThen (ih (index + 1))

end Statements

end TemplateLint.Constructor
