import TemplateLint.Proofs.Constructor.Evaluated
import TemplateLint.Proofs.Constructor.Statements
import TemplateLint.Proofs.Constructor.Summary

/-!
# The analysis of a constructor is exact

If no call of `super()` stands in a part that the analysis passes by (`methodReadInFull`), it follows
all paths of a constructor as long as finally blocks are gone through at the normal end and for
returns (`perform_eq_follow`). So what it says about the constructor is what these paths do
(`summarize_follows`). Without finally blocks they are all paths (`summarize_exact`).

Neither condition can be left out. The call in the test of a case is made on every path, and the
analysis drops the bit behind it (`summarize_drops_test`). A path that jumps out of a try block and
calls `super()` in the finally block on its way is not seen (`summarize_misses_jump`).
-/

namespace TemplateLint.Constructor

open TemplateLint.Syntax

variable (here : Path)

/-! ## Code that is read in full -/

/-- No call of `super()` in what declarators give values to. -/
def freeTargets : List Node → Bool
  | [] => true
  | ⟨_, .variableDeclarator target _⟩ :: rest => callFree target.tree && freeTargets rest
  | _ :: rest => freeTargets rest

def freeDeclarators : List Node → Bool
  | [] => true
  | ⟨_, .variableDeclarator target init⟩ :: rest =>
    callFree target.tree && callFree? init && freeDeclarators rest
  | _ :: rest => freeDeclarators rest

/-- No call of `super()` in what a loop over a collection binds. -/
def freeHead : Node → Bool
  | ⟨_, .variableDeclaration declarations _⟩ => freeDeclarators declarations
  | target => callFree target.tree

def freeInit : Option Node → Bool
  | some ⟨_, .variableDeclaration declarations _⟩ => freeTargets declarations
  | _ => true

mutual

/-- Whether no call stands in a part of a statement that is passed by, or in the test of a case. -/
def readInFull : Node → Bool
  | ⟨_, form⟩ => readInFullForm form

def readInFullForm : Form → Bool
  | .block body => readInFullAll body
  | .variableDeclaration declarations _ => freeTargets declarations
  | .exportNamed (some ⟨_, .variableDeclaration declarations _⟩) _ _ => freeDeclarators declarations
  | .exportDefault declaration => callFree declaration.tree
  | .ifStatement _ consequent alternate => readInFull consequent && readInFull? alternate
  | .labeledStatement _ body | .whileStatement _ body | .doWhileStatement body _ => readInFull body
  | .forStatement init _ _ body => freeInit init && readInFull body
  | .forInStatement left _ body | .forOfStatement left _ body => freeHead left && readInFull body
  | .switchStatement _ cases => readInFullAll cases
  | .switchCase test consequent => callFree? test && readInFullAll consequent
  | .tryStatement block handler finalizer =>
    readInFull block && readInFull? handler && readInFull? finalizer
  | .catchClause param body => callFree? param && readInFull body
  | _ => true

def readInFullAll : List Node → Bool
  | [] => true
  | node :: rest => readInFull node && readInFullAll rest

def readInFull? : Option Node → Bool
  | none => true
  | some node => readInFull node

end

/-- No call of `super()` in any part of a constructor that the analysis passes by. -/
def methodReadInFull : Node → Bool
  | ⟨_, .methodDefinition _ _ ⟨_, .function _ _ params ⟨_, .block body⟩ _ _⟩ _ _ _⟩ =>
    params.all (fun param => callFree param.tree) && readInFullAll body
  | _ => true

theorem declare_eq_evaluateValues (index : Nat) {declarators : List Node}
    (free : freeTargets declarators = true) :
    declare here index declarators = evaluateValues here index declarators := by
  induction declarators generalizing index with
  | nil => rfl
  | cons declarator rest ih =>
    obtain ⟨span, form⟩ := declarator
    cases form with
    | variableDeclarator target init =>
      rw [freeTargets, Bool.and_eq_true] at free
      rw [declare, evaluateValues, bind_of_callFree _ free.1, Paths.skip_andThen,
        ih (index + 1) free.2]
    | _ => exact ih (index + 1) free

theorem declare_of_freeDeclarators (index : Nat) {declarators : List Node}
    (free : freeDeclarators declarators = true) : declare here index declarators = .skip := by
  induction declarators generalizing index with
  | nil => rfl
  | cons declarator rest ih =>
    obtain ⟨span, form⟩ := declarator
    cases form with
    | variableDeclarator target init =>
      rw [freeDeclarators, Bool.and_eq_true, Bool.and_eq_true] at free
      rw [declare, evaluate?_of_callFree _ free.1.2, bind_of_callFree _ free.1.1,
        ih (index + 1) free.2, Paths.skip_andThen, Paths.skip_andThen]
    | _ => exact ih (index + 1) free

theorem bindHead_of_freeHead {head : Node} (free : freeHead head = true) :
    bindHead here head = .skip := by
  obtain ⟨span, form⟩ := head
  cases form with
  | variableDeclaration declarations kind => exact declare_of_freeDeclarators here 0 free
  | _ => exact bind_of_callFree here free

theorem performInit_eq_followInit {init : Option Node} (free : freeInit init = true) :
    performInit here init = followInit here init := by
  rcases init with _ | ⟨span, form⟩
  · rw [performInit, followInit]
  · cases form with
    | variableDeclaration declarations kind =>
      rw [performInit, followInit, declare_eq_evaluateValues here 0 free]
    | _ => simp only [performInit, followInit]

theorem performTests_of_readInFull (index : Nat) {cases : List Node}
    (free : readInFullAll cases = true) : performTests here index cases = .skip := by
  induction cases generalizing index with
  | nil => rfl
  | cons node rest ih =>
    obtain ⟨span, form⟩ := node
    rw [readInFullAll, Bool.and_eq_true, readInFull] at free
    cases form with
    | switchCase test consequent =>
      rw [readInFullForm, Bool.and_eq_true] at free
      rw [performTests, evaluate?_of_callFree _ free.1.1, ih (index + 1) free.2, Paths.skip_andThen]
    | _ => exact ih (index + 1) free.2

/-! ## Code without finally blocks -/

mutual

/-- No finally block in a statement, outside its functions and classes. -/
def finallyFree : Node → Bool
  | ⟨_, form⟩ => finallyFreeForm form

def finallyFreeForm : Form → Bool
  | .block body => finallyFreeAll body
  | .ifStatement _ consequent alternate => finallyFree consequent && finallyFree? alternate
  | .labeledStatement _ body | .whileStatement _ body | .doWhileStatement body _
  | .forStatement _ _ _ body | .forInStatement _ _ body | .forOfStatement _ _ body =>
    finallyFree body
  | .switchStatement _ cases => finallyFreeAll cases
  | .switchCase _ consequent => finallyFreeAll consequent
  | .tryStatement block handler none => finallyFree block && finallyFree? handler
  | .tryStatement _ _ (some _) => false
  | .catchClause _ body => finallyFree body
  | _ => true

def finallyFreeAll : List Node → Bool
  | [] => true
  | node :: rest => finallyFree node && finallyFreeAll rest

def finallyFree? : Option Node → Bool
  | none => true
  | some node => finallyFree node

end

/-! ## Code of which all paths are followed -/

section Followed

variable {final : Finalization}

mutual

/-- What is read in full is followed as it is performed, if finally blocks are gone through as the
analysis does or there are none. -/
theorem perform_eq_follow (labels : List String) (here : Path) :
    ∀ node : Node, readInFull node = true → final = Paths.finishing ∨ finallyFree node = true →
      perform final labels here node = follow labels here node
  | ⟨_, form⟩, full, free => by
    rw [readInFull] at full
    rw [finallyFree] at free
    rw [perform, follow, performForm_eq_followForm labels here form full free]

theorem performForm_eq_followForm (labels : List String) (here : Path) (form : Form)
    (full : readInFullForm form = true)
    (free : final = Paths.finishing ∨ finallyFreeForm form = true) :
    performForm final labels here form = followForm labels here form := by
  cases form with
  | block body =>
    rw [readInFullForm] at full
    rw [finallyFreeForm] at free
    rw [performForm, followForm, performAll_eq_followAll here .body 0 body full free]
  | variableDeclaration declarations kind =>
    rw [readInFullForm] at full
    rw [performForm, followForm, declare_eq_evaluateValues here 0 full]
  | exportNamed declaration specifiers source =>
    rcases declaration with _ | ⟨span, form⟩
    · simp only [performForm, followForm]
    · cases form with
      | variableDeclaration declarations kind =>
        rw [readInFullForm] at full
        simp only [performForm, followForm]
        exact declare_of_freeDeclarators _ 0 full
      | _ => simp only [performForm, followForm]
  | exportDefault declaration =>
    rw [readInFullForm] at full
    simp only [performForm, followForm]
    exact evaluate_of_callFree _ full
  | ifStatement test consequent alternate =>
    rw [readInFullForm, Bool.and_eq_true] at full
    rw [finallyFreeForm, Bool.and_eq_true] at free
    rw [performForm, followForm, perform_eq_follow [] _ consequent full.1 (free.imp_right And.left),
      perform?_eq_follow? _ alternate full.2 (free.imp_right And.right)]
  | labeledStatement label body =>
    rw [readInFullForm] at full
    rw [finallyFreeForm] at free
    rw [performForm, followForm, perform_eq_follow _ _ body full free,
      perform_eq_follow _ _ body full free]
  | whileStatement test body | doWhileStatement body test =>
    rw [readInFullForm] at full
    rw [finallyFreeForm] at free
    rw [performForm, followForm, perform_eq_follow _ _ body full free]
  | forStatement init test update body =>
    rw [readInFullForm, Bool.and_eq_true] at full
    rw [finallyFreeForm] at free
    rw [performForm, followForm, perform_eq_follow _ _ body full.2 free,
      performInit_eq_followInit _ full.1]
  | forInStatement left right body | forOfStatement left right body =>
    rw [readInFullForm, Bool.and_eq_true] at full
    rw [finallyFreeForm] at free
    rw [performForm, followForm, perform_eq_follow _ _ body full.2 free,
      bindHead_of_freeHead _ full.1, Paths.skip_andThen]
  | switchStatement discriminant cases =>
    rw [readInFullForm] at full
    rw [finallyFreeForm] at free
    rw [performForm, followForm, performTests_of_readInFull here 0 full, Paths.skip_andThen,
      ← Paths.breaking_guard_either]
    refine congrArg (fun entered => Paths.andThen _ (Paths.breaking _ entered)) ?_
    funext bit outcome
    refine propext (Iff.trans ?_ (or_congr_right
      (performEntered_iff_followFromAny here 0 cases full free bit outcome)))
    exact or_left_comm
  | tryStatement block handler finalizer =>
    rw [readInFullForm, Bool.and_eq_true, Bool.and_eq_true] at full
    cases finalizer with
    | none =>
      rw [finallyFreeForm, Bool.and_eq_true] at free
      rw [performForm, followForm, perform_eq_follow _ _ block full.1.1 (free.imp_right And.left),
        performCaught_eq_followCaught _ _ handler full.1.2 (free.imp_right And.right)]
    | some finalizer =>
      -- There is a finally block, so it is gone through as the analysis does.
      rw [finallyFreeForm, or_iff_left Bool.false_ne_true] at free
      have last := full.2
      rw [readInFull?] at last
      rw [performForm, followForm, perform_eq_follow _ _ block full.1.1 (.inl free),
        performCaught_eq_followCaught _ _ handler full.1.2 (.inl free),
        perform_eq_follow _ _ finalizer last (.inl free), free]
  | returnStatement argument =>
    cases argument <;> rw [performForm, followForm]
  | _ => simp only [performForm, followForm]

theorem performAll_eq_followAll (here : Path) (field : Field) (index : Nat) :
    ∀ nodes : List Node, readInFullAll nodes = true →
      final = Paths.finishing ∨ finallyFreeAll nodes = true →
      performAll final here field index nodes = followAll here field index nodes
  | [], _, _ => by rw [performAll, followAll]
  | node :: rest, full, free => by
    rw [readInFullAll, Bool.and_eq_true] at full
    rw [finallyFreeAll, Bool.and_eq_true] at free
    rw [performAll, followAll, perform_eq_follow _ _ node full.1 (free.imp_right And.left),
      performAll_eq_followAll here field (index + 1) rest full.2 (free.imp_right And.right)]

theorem perform?_eq_follow? (here : Path) :
    ∀ node? : Option Node, readInFull? node? = true →
      final = Paths.finishing ∨ finallyFree? node? = true →
      perform? final here node? = follow? here node?
  | none, _, _ => by rw [perform?, follow?]
  | some node, full, free => by
    rw [readInFull?] at full
    rw [finallyFree?] at free
    rw [perform?, follow?, perform_eq_follow _ _ node full free]

theorem performEntered_iff_followFromAny (here : Path) (index : Nat) :
    ∀ cases : List Node, readInFullAll cases = true →
      final = Paths.finishing ∨ finallyFreeAll cases = true → ∀ bit outcome,
      (performFromFit final here index cases bit outcome
          ∨ performFromDefault final here index cases bit outcome)
        ↔ followFromAny here index cases bit outcome
  | [], _, _ => by
    intro bit outcome
    rw [performFromFit, performFromDefault, followFromAny, or_self]
  | ⟨span, form⟩ :: rest, full, free => by
    intro bit outcome
    rw [readInFullAll, Bool.and_eq_true, readInFull] at full
    rw [finallyFreeAll, Bool.and_eq_true, finallyFree] at free
    have later := free.imp_right And.right
    have others := performEntered_iff_followFromAny here (index + 1) rest full.2 later bit outcome
    cases form with
    | switchCase test consequent =>
      rw [readInFullForm, Bool.and_eq_true] at full
      rw [finallyFreeForm] at free
      have taken := performAll_eq_followAll (here.item .cases index) .consequent 0 consequent
        full.1.2 (free.imp_right And.left)
      have through := performThrough_eq_followThrough here (index + 1) rest full.2 later
      have tested :
          ¬ (evaluate? ((here.item .cases index).child .test) test).aside bit outcome := by
        rw [evaluate?_of_callFree _ full.1.1]
        rintro ⟨rfl, stops⟩
        cases stops
      cases test with
      | none =>
        rw [performFromFit, performFromDefault, followFromAny, taken, through]
        · simp only [Paths.either, tested, false_or, ← others]
          exact or_left_comm
        · simp
      | some test =>
        rw [performFromFit, performFromDefault, followFromAny, taken, through,
          evaluate_of_callFree _ full.1.1, Paths.skip_andThen]
        · simp only [Paths.either, tested, false_or, ← others]
          exact or_assoc
        · simp
    | _ =>
      simp only [performFromFit, performFromDefault, followFromAny]
      exact others

theorem performThrough_eq_followThrough (here : Path) (index : Nat) :
    ∀ cases : List Node, readInFullAll cases = true →
      final = Paths.finishing ∨ finallyFreeAll cases = true →
      performThrough final here index cases = followThrough here index cases
  | [], _, _ => by rw [performThrough, followThrough]
  | ⟨span, form⟩ :: rest, full, free => by
    rw [readInFullAll, Bool.and_eq_true, readInFull] at full
    rw [finallyFreeAll, Bool.and_eq_true, finallyFree] at free
    have others := performThrough_eq_followThrough here (index + 1) rest full.2
      (free.imp_right And.right)
    cases form with
    | switchCase test consequent =>
      rw [readInFullForm, Bool.and_eq_true] at full
      rw [finallyFreeForm] at free
      rw [performThrough, followThrough, others,
        performAll_eq_followAll _ _ 0 consequent full.1.2 (free.imp_right And.left)]
    | _ =>
      simp only [performThrough, followThrough]
      exact others

theorem performCaught_eq_followCaught (here : Path) (block : Paths) :
    ∀ handler : Option Node, readInFull? handler = true →
      final = Paths.finishing ∨ finallyFree? handler = true →
      performCaught final here block handler = followCaught here block handler
  | none, _, _ => by simp only [performCaught, followCaught]
  | some ⟨span, form⟩, full, free => by
    rw [readInFull?, readInFull] at full
    rw [finallyFree?, finallyFree] at free
    cases form with
    | catchClause param body =>
      rw [readInFullForm, Bool.and_eq_true] at full
      rw [finallyFreeForm] at free
      rw [performCaught, followCaught, bind?_of_callFree _ full.1, Paths.skip_andThen,
        perform_eq_follow _ _ body full.2 free]
    | _ => simp only [performCaught, followCaught]

end

end Followed

/-! ## A whole constructor -/

theorem constructorPaths_eq_followedPaths {method : Node} {body : List Node}
    (isBody : methodBody? method = some body) (full : methodReadInFull method = true)
    {final : Finalization} (free : final = Paths.finishing ∨ finallyFreeAll body = true) :
    constructorPaths final here method = followedPaths here body := by
  unfold methodBody? at isBody
  split at isBody
  · cases isBody
    rw [methodReadInFull, Bool.and_eq_true, List.all_eq_true] at full
    rw [constructorPaths, followedPaths, bindAll_of_callFree _ _ 0 full.1, Paths.skip_andThen,
      performAll_eq_followAll _ _ 0 _ full.2 free]
  · cases isBody

theorem summarize_of_followed {method : Node} {body : List Node}
    (isBody : methodBody? method = some body) {paths : Paths}
    (followed : paths = followedPaths here body) :
    (∀ called, (summarize here method).exits.has called = true
      ↔ paths false (.ended called) ∨ paths false (.returned called))
    ∧ (∀ site called, ((summarize here method).statesAt site).has called = true
      ↔ paths false (.met site called))
    ∧ (∀ site, site ∈ (summarize here method).calls.map Prod.fst
      ↔ ∃ called, paths false (.met site called))
    ∧ ((summarize here method).calls.map Prod.fst).Nodup :=
  followed ▸ summarize_of_matches isBody (walkStatements_matches _ .body 0 body .start)

/-- **The analysis of a constructor is exact** if no call of `super()` stands in a part that it passes
by. It ends with exactly the facts of the paths that come to the end of the constructor or to a
return, it lists exactly the calls of `super()` that some path comes to, each once, and it keeps for
each of them exactly the facts of the paths that come to it. Without finally blocks it does not
matter how these are gone through. -/
theorem summarize_exact (here : Path) {method : Node} {body : List Node}
    (isBody : methodBody? method = some body) (full : methodReadInFull method = true)
    (free : finallyFreeAll body = true) (final : Finalization) :
    (∀ called, (summarize here method).exits.has called = true
      ↔ constructorPaths final here method false (.ended called)
        ∨ constructorPaths final here method false (.returned called))
    ∧ (∀ site called, ((summarize here method).statesAt site).has called = true
      ↔ constructorPaths final here method false (.met site called))
    ∧ (∀ site, site ∈ (summarize here method).calls.map Prod.fst
      ↔ ∃ called, constructorPaths final here method false (.met site called))
    ∧ ((summarize here method).calls.map Prod.fst).Nodup :=
  summarize_of_followed here isBody (constructorPaths_eq_followedPaths here isBody full (.inr free))

/-- A constructor with given parameters and statements. -/
def constructorOf (params body : List Node) : Node :=
  ⟨⟨0, 40⟩, .methodDefinition [] ⟨⟨0, 0⟩, .identifier "constructor"⟩
    ⟨⟨0, 40⟩, .function .expression none params ⟨⟨0, 40⟩, .block body⟩ false false⟩
    .constructor false false⟩

/-- The statements of `while (a) { try { super(); } catch { continue; } }`. -/
def retryBody : List Node :=
  [⟨⟨0, 52⟩, .whileStatement ⟨⟨7, 8⟩, .identifier "a"⟩
    ⟨⟨10, 52⟩, .block
      [⟨⟨12, 50⟩, .tryStatement
        ⟨⟨16, 28⟩, .block [⟨⟨18, 26⟩, .expressionStatement
          ⟨⟨18, 25⟩, .call ⟨⟨18, 23⟩, .super⟩ []⟩⟩]⟩
        (some ⟨⟨29, 50⟩, .catchClause none
          ⟨⟨35, 50⟩, .block [⟨⟨37, 46⟩, .continueStatement none⟩]⟩⟩) none⟩]⟩⟩]

def retryCall : CallSite where
  place := [⟨.expression, 0⟩, ⟨.body, 0⟩, ⟨.block, 0⟩, ⟨.body, 0⟩, ⟨.body, 0⟩, ⟨.body, 0⟩,
    ⟨.body, 0⟩, ⟨.value, 0⟩]
  span := ⟨18, 25⟩

/-- The loop may be left before the call and after it, and a call may follow a call. -/
theorem summarize_exact_retry :
    methodBody? (constructorOf [] retryBody) = some retryBody
      ∧ methodReadInFull (constructorOf [] retryBody) = true ∧ finallyFreeAll retryBody = true
      ∧ (∀ called, constructorPaths .always [] (constructorOf [] retryBody) false (.ended called)
        ∨ constructorPaths .always [] (constructorOf [] retryBody) false (.returned called))
      ∧ ∀ called, constructorPaths .always [] (constructorOf [] retryBody) false
        (.met retryCall called) := by
  have isBody : methodBody? (constructorOf [] retryBody) = some retryBody := rfl
  have full : methodReadInFull (constructorOf [] retryBody) = true := by decide
  have free : finallyFreeAll retryBody = true := by decide
  obtain ⟨exits, states, _⟩ := summarize_exact [] isBody full free .always
  refine ⟨isBody, full, free, fun called => (exits called).1 ?_,
    fun called => (states _ called).1 ?_⟩
  · cases called <;> decide
  · cases called <;> decide

theorem evaluate_superCall (span inner : Span) :
    evaluate here ⟨span, .call ⟨inner, .super⟩ []⟩ = .superCall ⟨here, span⟩ := by
  have children : (Form.call ⟨inner, .super⟩ []).fields.children
      = [(⟨.callee, 0⟩, Node.tree ⟨inner, .super⟩)] := rfl
  rw [evaluate, Node.tree_mk, children, evaluateTree, evaluateTrees, evaluateTrees,
    evaluateTree_of_callFree _ _ rfl, Paths.skip_andThen, Paths.skip_andThen]

/-- The statement `switch (b) { case super(): }`. -/
def testedSwitch : Node :=
  ⟨⟨0, 28⟩, .switchStatement ⟨⟨8, 9⟩, .identifier "b"⟩
    [⟨⟨13, 26⟩, .switchCase (some ⟨⟨18, 25⟩, .call ⟨⟨18, 23⟩, .super⟩ []⟩) []⟩]⟩

theorem testedSwitch_ended (final : Finalization) :
    constructorPaths final [] (constructorOf [] [testedSwitch]) false (.ended true) := by
  simp only [constructorOf, testedSwitch, constructorPaths, bindAll, performAll, perform,
      performForm, performFromFit, performThrough, evaluate_superCall, Paths.andThen_skip,
      Paths.skip_andThen]
  rw [evaluate_of_callFree _ rfl, Paths.skip_andThen]
  -- The test fits, and its case is empty.
  exact .inr (.inr ⟨.inl (.inl ⟨true, .inr (.inr rfl), .inl rfl⟩), by simp⟩)

/-- A call in the test of a case is made before the constructor ends, and there is no finally block;
the analysis finds that the constructor ends without a call. -/
theorem summarize_drops_test :
    finallyFreeAll [testedSwitch] = true
      ∧ (∀ final, constructorPaths final [] (constructorOf [] [testedSwitch]) false (.ended true))
      ∧ (summarize [] (constructorOf [] [testedSwitch])).exits.has true = false :=
  ⟨by decide, testedSwitch_ended, by decide⟩

/-! ## Finally blocks -/

/-- **The analysis of a constructor is exact with finally blocks as well**, if they are gone through
at the normal end and for returns, and no call of `super()` stands in a part that is passed by. It
ends with exactly the facts of the paths that come to the end of the constructor or to a return, it
lists exactly the calls of `super()` that one of them comes to, each once, and it keeps for each of
them exactly the facts of those that come to it. -/
theorem summarize_follows (here : Path) {method : Node} {body : List Node}
    (isBody : methodBody? method = some body) (full : methodReadInFull method = true) :
    (∀ called, (summarize here method).exits.has called = true
      ↔ constructorPaths Paths.finishing here method false (.ended called)
        ∨ constructorPaths Paths.finishing here method false (.returned called))
    ∧ (∀ site called, ((summarize here method).statesAt site).has called = true
      ↔ constructorPaths Paths.finishing here method false (.met site called))
    ∧ (∀ site, site ∈ (summarize here method).calls.map Prod.fst
      ↔ ∃ called, constructorPaths Paths.finishing here method false (.met site called))
    ∧ ((summarize here method).calls.map Prod.fst).Nodup :=
  summarize_of_followed here isBody (constructorPaths_eq_followedPaths here isBody full (.inl rfl))

/-- The statements of `a: try { … } finally { super(); }`, with the given statement in the try
block. -/
def lateBody (statement : Node) : List Node :=
  [⟨⟨0, 40⟩, .labeledStatement ⟨⟨0, 1⟩, "a"⟩
    ⟨⟨3, 40⟩, .tryStatement ⟨⟨7, 19⟩, .block [statement]⟩ none
      (some ⟨⟨28, 40⟩, .block [⟨⟨30, 38⟩, .expressionStatement
        ⟨⟨30, 37⟩, .call ⟨⟨30, 35⟩, .super⟩ []⟩⟩]⟩)⟩⟩]

/-- The constructor that returns in the try block, `a: try { return; } finally { super(); }`. -/
def lateReturn : Node := constructorOf [] (lateBody ⟨⟨9, 16⟩, .returnStatement none⟩)

/-- The constructor that jumps out of the try block, `a: try { break a; } finally { super(); }`. -/
def lateJump : Node :=
  constructorOf [] (lateBody ⟨⟨9, 17⟩, .breakStatement (some ⟨⟨15, 16⟩, "a"⟩)⟩)

def lateCall : CallSite where
  place := [⟨.expression, 0⟩, ⟨.body, 0⟩, ⟨.finalizer, 0⟩, ⟨.body, 0⟩, ⟨.body, 0⟩, ⟨.body, 0⟩,
    ⟨.value, 0⟩]
  span := ⟨30, 37⟩

/-- On the way of a return the call is made, so every path has called at its end. -/
theorem summarize_follows_return :
    methodBody? lateReturn = some (lateBody ⟨⟨9, 16⟩, .returnStatement none⟩)
      ∧ methodReadInFull lateReturn = true
      ∧ (∀ called, constructorPaths Paths.finishing [] lateReturn false (.ended called)
          ∨ constructorPaths Paths.finishing [] lateReturn false (.returned called)
        ↔ called = true)
      ∧ ∀ called, constructorPaths Paths.finishing [] lateReturn false (.met lateCall called)
        ↔ called = false := by
  have isBody : methodBody? lateReturn = some (lateBody ⟨⟨9, 16⟩, .returnStatement none⟩) := rfl
  have full : methodReadInFull lateReturn = true := by decide
  obtain ⟨exits, states, _⟩ := summarize_follows [] isBody full
  refine ⟨isBody, full, fun called => (exits called).symm.trans ?_,
    fun called => (states lateCall called).symm.trans ?_⟩
  · cases called <;> decide
  · cases called <;> decide

/-- A jump leads out of the try block through the finally block, where `super()` is called, to the
end of the constructor. All of it is read, and the analysis does not see that it ends so. -/
theorem summarize_misses_jump :
    methodReadInFull lateJump = true
      ∧ constructorPaths .always [] lateJump false (.ended true)
      ∧ (summarize [] lateJump).exits.has true = false := by
  refine ⟨by decide, ?_, by decide⟩
  simp only [lateJump, constructorOf, lateBody, constructorPaths, bindAll, performAll, perform,
    performForm, performCaught, takesLabels, evaluate_superCall, Paths.andThen_skip,
    Paths.skip_andThen, Bool.false_eq_true, if_false]
  -- The jump arrives at the label with the bit that the finally block has set.
  refine .inr (.inl ⟨⟨false, some "a"⟩, true, .inr (.inl ?_), by decide, rfl, rfl⟩)
  refine ⟨.jumped ⟨false, some "a"⟩ false, true, ?_, by simp, ?_, rfl⟩
  · exact .inr (.inr rfl)
  · exact .inr (.inr (.inr (.inr rfl)))

end TemplateLint.Constructor
