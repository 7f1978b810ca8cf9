import TemplateLint.Constructor.Check
import TemplateLint.Proofs.Grammar.Program

/-!
# What a class may extend

`mayConstruct` asks whether an expression may give a constructor. `MayYield` says it by the kinds of
expressions, for several readings of the kinds that are open to doubt, and the test follows one of
them exactly (`mayConstruct_iff`): it takes no awaited value for a constructor, and no value that
the target of `||=`, `&&=` or `??=` keeps (`badSuper_iff_not_mayYield`).
-/

namespace TemplateLint.Constructor

open TemplateLint.Syntax TemplateLint.Decorator

/-! ## Readings -/

/-- How expressions are read whose values are open to doubt. -/
structure Reading where
  awaits : Bool
  keeps : Bool
  computes : Bool

namespace Reading

/-- The reading of the description. -/
def described : Reading := ⟨true, true, false⟩

/-- The reading of the test. -/
def checked : Reading := ⟨false, false, true⟩

/-- The description without awaited values and without values that targets keep. -/
def common : Reading := ⟨false, false, false⟩

end Reading

/-- The kinds of expressions whose values are not known, so that they may be constructors. -/
def isUnknown : Form → Bool
  | .identifier name => name != "undefined"
  | .this | .newTarget | .member .. | .call .. | .construct .. | .taggedTemplate .. | .yield ..
  | .function .expression .. | .classDefinition .expression .. => true
  | _ => false

/-- The value of an expression may be a constructor. -/
inductive MayYield (reading : Reading) : Node → Prop where
  | unknown {span : Span} {form : Form} (kind : isUnknown form = true) :
      MayYield reading ⟨span, form⟩
  | await {span : Span} {argument : Node} (awaits : reading.awaits = true) :
      MayYield reading ⟨span, .await argument⟩
  | assigned {span : Span} {left right : Node} {operator : AssignOp}
      (passes : operator = .plain ∨ operator.isShortCircuit = true ∨ reading.computes = true)
      (yields : MayYield reading right) : MayYield reading ⟨span, .assignment left operator right⟩
  | kept {span : Span} {left right : Node} {operator : AssignOp} (keeps : reading.keeps = true)
      (skips : operator.isShortCircuit = true) (yields : MayYield reading left) :
      MayYield reading ⟨span, .assignment left operator right⟩
  | leftOperand {span : Span} {left right : Node} {operator : BinaryOp}
      (logical : operator.isLogical = true) (yields : MayYield reading left) :
      MayYield reading ⟨span, .binary left operator right⟩
  | rightOperand {span : Span} {left right : Node} {operator : BinaryOp}
      (logical : operator.isLogical = true) (yields : MayYield reading right) :
      MayYield reading ⟨span, .binary left operator right⟩
  | consequent {span : Span} {test first second : Node} (yields : MayYield reading first) :
      MayYield reading ⟨span, .conditional test first second⟩
  | alternate {span : Span} {test first second : Node} (yields : MayYield reading second) :
      MayYield reading ⟨span, .conditional test first second⟩
  | sequence {span : Span} {expressions : List Node} {last : Node}
      (ends : expressions.getLast? = some last) (yields : MayYield reading last) :
      MayYield reading ⟨span, .sequence expressions⟩

theorem MayYield.checked_of_common {expression : Node} (yields : MayYield .common expression) :
    MayYield .checked expression := by
  induction yields with
  | unknown kind => exact .unknown kind
  | await awaits => cases awaits
  | assigned _ _ ih => exact .assigned (.inr (.inr rfl)) ih
  | kept keeps => cases keeps
  | leftOperand logical _ ih => exact .leftOperand logical ih
  | rightOperand logical _ ih => exact .rightOperand logical ih
  | consequent _ ih => exact .consequent ih
  | alternate _ ih => exact .alternate ih
  | sequence ends _ ih => exact .sequence ends ih

theorem lastMayConstruct_iff (expressions : List Node) :
    lastMayConstruct expressions = true
      ↔ ∃ last, expressions.getLast? = some last ∧ mayConstruct last = true := by
  induction expressions with
  | nil => simp [lastMayConstruct]
  | cons first rest ih =>
    cases rest with
    | nil => simp [lastMayConstruct]
    | cons second rest =>
      rw [lastMayConstruct, ih, List.getLast?_cons_cons]
      exact List.cons_ne_nil _ _

/-- **The test accepts an expression exactly if it may give a constructor**, in the reading of
the test. -/
theorem mayConstruct_iff (expression : Node) :
    mayConstruct expression = true ↔ MayYield .checked expression := by
  have views := Tree.view_induction
    (motive := fun tree => mayConstruct tree.node = true ↔ MayYield .checked tree.node)
    fun span form parts => ?_
  · simpa using views expression.tree expression.isView_tree
  rw [Node.node_tree]
  -- the form decides which of its parts count
  have parts : form.fields.All fun _ tree =>
      (mayConstruct tree.node = true ↔ MayYield .checked tree.node) := by
    rw [Node.tree] at parts
    exact parts
  cases form with
  | identifier | this | newTarget | member | call | construct | taggedTemplate | yield =>
    rw [mayConstruct]
    refine ⟨fun accepted => .unknown accepted, fun yields => ?_⟩
    cases yields with
    | unknown kind => exact kind
  | function role | classDefinition role =>
    cases role with
    | expression => exact ⟨fun _ => .unknown rfl, fun _ => rfl⟩
    | declaration =>
      refine ⟨fun accepted => by simp [mayConstruct] at accepted, fun yields => ?_⟩
      cases yields with
      | unknown kind => cases kind
  | assignment left operator right =>
    simp only [Form.fields, Fields.all_append, Fields.all_one, Node.node_tree] at parts
    rw [mayConstruct, parts.2]
    refine ⟨.assigned (.inr (.inr rfl)), fun yields => ?_⟩
    cases yields with
    | unknown kind => cases kind
    | assigned _ yields => exact yields
    | kept keeps => cases keeps
  | binary left operator right =>
    simp only [Form.fields, Fields.all_append, Fields.all_one, Node.node_tree] at parts
    rw [mayConstruct, Bool.and_eq_true, Bool.or_eq_true, parts.1.1, parts.2]
    constructor
    · rintro ⟨logical, inLeft | inRight⟩
      · exact .leftOperand logical inLeft
      · exact .rightOperand logical inRight
    · intro yields
      cases yields with
      | unknown kind => cases kind
      | leftOperand logical yields => exact ⟨logical, .inl yields⟩
      | rightOperand logical yields => exact ⟨logical, .inr yields⟩
  | conditional test consequent alternate =>
    simp only [Form.fields, Fields.all_append, Fields.all_one, Node.node_tree] at parts
    rw [mayConstruct, Bool.or_eq_true, parts.2, parts.1.2]
    constructor
    · rintro (inAlternate | inConsequent)
      · exact .alternate inAlternate
      · exact .consequent inConsequent
    · intro yields
      cases yields with
      | unknown kind => cases kind
      | consequent yields => exact .inr yields
      | alternate yields => exact .inl yields
  | sequence expressions =>
    simp only [Form.fields, Fields.all_treesOf, Node.node_tree] at parts
    rw [mayConstruct, lastMayConstruct_iff]
    constructor
    · rintro ⟨last, ends, accepted⟩
      exact .sequence ends ((parts last (List.mem_of_getLast? ends)).1 accepted)
    · intro yields
      cases yields with
      | unknown kind => cases kind
      | sequence ends yields => exact ⟨_, ends, (parts _ (List.mem_of_getLast? ends)).2 yields⟩
  | await =>
    refine ⟨fun accepted => by simp [mayConstruct] at accepted, fun yields => ?_⟩
    cases yields with
    | unknown kind => cases kind
    | await awaits => cases awaits
  | _ =>
    refine ⟨fun accepted => by simp [mayConstruct] at accepted, fun yields => ?_⟩
    cases yields with
    | unknown kind => cases kind

/-! ## Calls of super -/

/-- What a class extends. -/
def extended? : Node → Option Node
  | ⟨_, .classDefinition _ _ _ superClass _⟩ => superClass
  | _ => none

theorem heritage_rejects_iff (registry : Registry) (classNode : Node) :
    (heritage registry classNode).derived = true
        ∧ (heritage registry classNode).fromConstructor = false
      ↔ ∃ expression, extended? classNode = some expression
        ∧ ¬ MayYield .checked expression := by
  obtain ⟨span, form⟩ := classNode
  cases form with
  | classDefinition role decorators id superClass body =>
    cases superClass with
    | none => simp [heritage, extended?]
    | some expression => simp [heritage, isDerived, extended?, ← mayConstruct_iff]
  | _ => simp [heritage, extended?]

theorem callProblem?_eq_badSuper_iff (heritage : Heritage) (facts : Facts) :
    callProblem? heritage facts = some .badSuper
      ↔ (heritage.derived = true ∧ heritage.fromConstructor = false) ∧ facts.called = false := by
  cases derived : heritage.derived <;> cases called : facts.called
    <;> cases constructs : heritage.fromConstructor
    <;> simp [callProblem?, derived, called, constructs]

/-- The calls of a constructor that are called bad: all that may be the first one, if its class
extends what cannot be a constructor. -/
theorem badSuper_mem_checkConstructor_iff (heritage : Heritage) (place : Path) (method : Node)
    (finding : SuperFinding) :
    finding ∈ checkConstructor heritage place method ∧ finding.problem = .badSuper
      ↔ (heritage.derived = true ∧ heritage.fromConstructor = false)
        ∧ ∃ call ∈ (summarize place method).calls, call.2.called = false
          ∧ finding = ⟨call.1.place, call.1.span, .badSuper⟩ := by
  have whole : ∀ problem, (if heritage.derived then
      exitProblem? (summarize place method).exits else none) = some problem →
      problem ≠ .badSuper := by
    rintro problem exits rfl
    simp only [exitProblem?] at exits
    split at exits
    · split at exits
      · split at exits <;> cases exits
      · cases exits
    · cases exits
  rw [checkConstructor, List.mem_mergeSort, List.mem_append, List.mem_map, List.mem_filterMap]
  simp only [Option.mem_toList, Option.map_eq_some_iff]
  constructor
  · rintro ⟨⟨problem, exits, rfl⟩ | ⟨call, listed, problem, found, rfl⟩, bad⟩
    · exact absurd bad (whole problem exits)
    · obtain rfl : problem = .badSuper := bad
      obtain ⟨rejects, first⟩ := (callProblem?_eq_badSuper_iff ..).1 found
      exact ⟨rejects, call, listed, first, rfl⟩
  · rintro ⟨rejects, call, listed, first, rfl⟩
    exact ⟨.inr ⟨call, listed, .badSuper, (callProblem?_eq_badSuper_iff ..).2 ⟨rejects, first⟩, rfl⟩,
      rfl⟩

/-- **Nothing that may give a constructor is rejected, awaited values and kept targets apart.**
An expression is accepted exactly if it may give a constructor in the reading of the test, which
covers all of the description but `await` and the targets of `||=`, `&&=` and `??=`. A call of
`super()` is called bad exactly if its class extends an expression that is not accepted and the
call may be the first one. -/
theorem badSuper_iff_not_mayYield (registry : Registry) (tree : Tree) :
    (∀ expression, mayConstruct expression = true ↔ MayYield .checked expression)
    ∧ (∀ expression, MayYield .common expression → mayConstruct expression = true)
    ∧ ∀ finding, finding ∈ constructorFindings registry tree ∧ finding.problem = .badSuper
      ↔ ∃ site ∈ constructors tree,
        (∃ expression, extended? site.classNode = some expression
          ∧ ¬ MayYield .checked expression)
        ∧ ∃ call ∈ (summarize site.place site.method).calls, call.2.called = false
          ∧ finding = ⟨call.1.place, call.1.span, .badSuper⟩ := by
  refine ⟨mayConstruct_iff, fun expression yields => ?_, fun finding => ?_⟩
  · exact (mayConstruct_iff expression).2 yields.checked_of_common
  · simp only [constructorFindings, List.mem_flatMap, ← heritage_rejects_iff registry,
      ← badSuper_mem_checkConstructor_iff]
    constructor
    · rintro ⟨⟨site, listed, found⟩, bad⟩
      exact ⟨site, listed, found, bad⟩
    · rintro ⟨site, listed, found, bad⟩
      exact ⟨⟨site, listed, found⟩, bad⟩

/-- The expression has the parts of `a, c ? b : x ||= y.z`. -/
def endsInMember : Node → Bool
  | ⟨_, .sequence [_, ⟨_, .conditional _ _ ⟨_, .assignment _ (.compound .or) ⟨_, .member ..⟩⟩⟩]⟩ =>
    true
  | _ => false

/-- The class of `class A extends (0, c ? null : x ||= B.C) {}` may extend what it names. -/
theorem badSuper_iff_not_mayYield_sequence : ∃ root expression,
    Grammar.parse "class A extends (0, c ? null : x ||= B.C) {}" = .ok root
      ∧ root.tree.nodeAt? [⟨.superClass, 0⟩, ⟨.body, 0⟩] = some expression
      ∧ MayYield .common expression ∧ mayConstruct expression = true := by
  have run : ((Grammar.parse "class A extends (0, c ? null : x ||= B.C) {}").toOption.any
      fun root => (root.tree.nodeAt? [⟨.superClass, 0⟩, ⟨.body, 0⟩]).any endsInMember) = true := by
    decide +kernel
  obtain ⟨root, parsed, run⟩ := Grammar.exists_of_any_parse run
  obtain ⟨expression, found, shape⟩ := (Option.any_eq_true ..).1 run
  have yields : MayYield .common expression := by
    unfold endsInMember at shape
    split at shape
    · exact .sequence rfl (.alternate (.assigned (.inr (.inl rfl)) (.unknown rfl)))
    · cases shape
  exact ⟨root, expression, parsed, found, yields,
    (badSuper_iff_not_mayYield .empty root.tree).2.1 expression yields⟩

/-- The expression has the parts of `await a` or of `B ||= a`. -/
def isAwaitedOrKept : Node → Bool
  | ⟨_, .await _⟩ | ⟨_, .assignment ⟨_, .identifier "B"⟩ (.compound .or) _⟩ => true
  | _ => false

theorem mayYield_of_isAwaitedOrKept {expression : Node}
    (shape : isAwaitedOrKept expression = true) : MayYield .described expression := by
  unfold isAwaitedOrKept at shape
  split at shape
  · exact .await rfl
  · exact .kept rfl rfl (.unknown (by decide))
  · cases shape

/-- In `class A extends (await b) { constructor() { super(); } }` and in the same class that
extends `B ||= 1` the call is called bad, though what the class extends may be a constructor. -/
theorem badSuper_of_await_and_kept : ∃ root awaited kept,
    Grammar.parse ("class A extends (await b) { constructor() { super(); } } "
        ++ "class D extends (B ||= 1) { constructor() { super(); } }") = .ok root
      ∧ root.tree.nodeAt? [⟨.superClass, 0⟩, ⟨.body, 0⟩] = some awaited
      ∧ root.tree.nodeAt? [⟨.superClass, 0⟩, ⟨.body, 1⟩] = some kept
      ∧ MayYield .described awaited ∧ MayYield .described kept
      ∧ (constructorFindings .empty root.tree).map SuperFinding.problem
        = [.badSuper, .badSuper] := by
  have run : ((Grammar.parse ("class A extends (await b) { constructor() { super(); } } "
        ++ "class D extends (B ||= 1) { constructor() { super(); } }")).toOption.any fun root =>
      (root.tree.nodeAt? [⟨.superClass, 0⟩, ⟨.body, 0⟩]).any isAwaitedOrKept
        && (root.tree.nodeAt? [⟨.superClass, 0⟩, ⟨.body, 1⟩]).any isAwaitedOrKept
        && (constructorFindings .empty root.tree).map SuperFinding.problem
          == [.badSuper, .badSuper]) = true := by
    decide +kernel
  obtain ⟨root, parsed, run⟩ := Grammar.exists_of_any_parse run
  rw [Bool.and_eq_true, Bool.and_eq_true, beq_iff_eq, Option.any_eq_true, Option.any_eq_true] at run
  obtain ⟨⟨⟨awaited, first, awaits⟩, kept, second, keeps⟩, problems⟩ := run
  exact ⟨root, awaited, kept, parsed, first, second, mayYield_of_isAwaitedOrKept awaits,
    mayYield_of_isAwaitedOrKept keeps, problems⟩

end TemplateLint.Constructor
