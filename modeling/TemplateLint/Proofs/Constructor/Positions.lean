import TemplateLint.Proofs.Constructor.Exactness
import TemplateLint.Proofs.Constructor.Tracking

/-!
# Calls in every position

Every call of `super()` that some path comes to is listed unless it is `Overlooked`, and after an
expression with such a call there is a path that has called. If no call stands in a part that is
passed by or in the test of a case (`methodReadInFull`), the facts of the analysis are those of all
paths (`summarize_lists_calls`). Neither condition can be left out (`summarize_overlooks_call`).
-/

namespace TemplateLint.Constructor

open TemplateLint.Syntax

variable (here : Path)

/-! ## Calls in expressions -/

/-- Paths that can always come to the end, keep the bit once it is set, and can come to the end with
the bit set if they come to a call. -/
structure Paths.Lasting (paths : Paths) : Prop where
  total : paths.Total
  keeps : ∀ after, paths true (.ended after) → after = true
  carries : ∀ bit site before, paths bit (.met site before) → paths bit (.ended true)

namespace Paths.Lasting

variable {paths second : Paths}

theorem skip : Lasting .skip where
  total := .skip
  keeps := by
    intro after ends
    cases ends
    rfl
  carries := by
    intro bit site before met
    cases met

theorem superCall (site : CallSite) : Lasting (.superCall site) where
  total := .superCall site
  keeps := by
    rintro after (ends | ends | ends)
    · cases ends
    · cases ends
    · cases ends
      rfl
  carries _ _ _ _ := .inr (.inr rfl)

theorem andThen (first : paths.Lasting) (next : second.Lasting) :
    (paths.andThen second).Lasting where
  total := first.total.andThen next.total
  keeps := by
    rintro after (⟨between, ends, goes⟩ | ⟨_, stops⟩)
    · rw [first.keeps between ends] at goes
      exact next.keeps after goes
    · cases stops
  carries := by
    rintro bit site before (⟨between, ends, goes⟩ | ⟨goes, _⟩)
    · exact .inl ⟨between, ends, next.carries between site before goes⟩
    · obtain ⟨after, goesOn⟩ := next.total true
      rw [next.keeps after goesOn] at goesOn
      exact .inl ⟨true, first.carries bit site before goes, goesOn⟩

theorem either (first : paths.Lasting) (next : second.Lasting) :
    (paths.either second).Lasting where
  total := .either first.total
  keeps := by
    rintro after (ends | ends)
    · exact first.keeps after ends
    · exact next.keeps after ends
  carries := by
    rintro bit site before (goes | goes)
    · exact .inl (first.carries bit site before goes)
    · exact .inr (next.carries bit site before goes)

end Paths.Lasting

theorem Paths.Lasting.hereditary : Paths.Hereditary fun _ => Paths.Lasting where
  skip _ := .skip
  superCall _ _ := .superCall _
  andThen := .andThen
  either := .either
  child := id

theorem has_out_of_call {here : Path} {node : Node} {facts : Facts} {site : CallSite}
    (listed : site ∈ (callsOf (walkExpression here node facts).marks).map Prod.fst) :
    (walkExpression here node facts).out.has true = true := by
  have known := walkExpression_matches here node facts
  obtain ⟨before, shown⟩ := (mem_sites_callsOf _ site).1 listed
  obtain ⟨bit, has, met⟩ := (known (.met site before)).1 shown
  have lasting := Paths.Lasting.hereditary.evaluateTree here node.tree
  have ends := lasting.carries bit site before met
  exact (known (.ended true)).2 ⟨bit, has, ends⟩

/-! ## Constructors -/

section Constructors

variable {method : Node} {body : List Node}

theorem constructorPaths_tracks (isBody : methodBody? method = some body) :
    (constructorPaths .always here method).Tracks (Overlooked method here)
      (followedPaths here body) := by
  have root := Stands.root method here
  unfold methodBody? at isBody
  split at isBody
  · next _ _ _ inner role id params last _ isAsync generator _ _ _ =>
    cases isBody
    have function : Stands _ here (here.child .value)
        ⟨inner, .function role id params ⟨last, .block body⟩ isAsync generator⟩ :=
      root.child (by simp [Form.fields])
    have block : Stands _ here ((here.child .value).child .body) ⟨last, .block body⟩ :=
      function.child (by simp [Form.fields])
    rw [constructorPaths, followedPaths]
    refine .passing (bindAll_passes function rfl 0 params) (performAll_tracks _ _ 0 body ?_)
    exact .of_children block (by simp [Form.fields])
  · cases isBody

theorem mem_calls_of_met {here : Path} (isBody : methodBody? method = some body) {site : CallSite}
    {called : Bool} (met : constructorPaths .always here method false (.met site called)) :
    site ∈ (summarize here method).calls.map Prod.fst ∨ Overlooked method here site := by
  rcases constructorPaths_tracks here isBody false _ met with excused | reached
  · obtain ⟨after, thrown⟩ | ⟨other, after, same, overlooked⟩ := excused
    · cases thrown
    · cases same
      exact .inr overlooked
  · obtain ⟨_, _, listed, _⟩ := summarize_of_followed here isBody rfl
    exact .inl ((listed site).2 (reached false))

/-- **No call that a path comes to is missed, unless it is overlooked.** After an expression with a
call that is come to, some path has called. If no call stands where it is not read, the facts of the
analysis are those of all paths. -/
theorem summarize_lists_calls (here : Path) (isBody : methodBody? method = some body) :
    (∀ site called, constructorPaths .always here method false (.met site called) →
      site ∈ (summarize here method).calls.map Prod.fst ∨ Overlooked method here site)
    ∧ (∀ place node facts site,
      site ∈ (callsOf (walkExpression place node facts).marks).map Prod.fst →
        (walkExpression place node facts).out.has true = true)
    ∧ (methodReadInFull method = true →
      (∀ called, (summarize here method).exits.has called = true
        ↔ constructorPaths Paths.finishing here method false (.ended called)
          ∨ constructorPaths Paths.finishing here method false (.returned called))
      ∧ (∀ site called, ((summarize here method).statesAt site).has called = true
        ↔ constructorPaths Paths.finishing here method false (.met site called))) := by
  refine ⟨fun site called => mem_calls_of_met isBody, fun place node facts site => has_out_of_call,
    fun full => ?_⟩
  obtain ⟨exits, states, _⟩ :=
    summarize_of_followed here isBody (constructorPaths_eq_followedPaths here isBody full (.inl rfl))
  exact ⟨exits, states⟩

end Constructors

/-- The pattern `{ [super()]: a }`. -/
def keyedPattern : Node :=
  ⟨⟨1, 17⟩, .objectPattern [⟨⟨3, 15⟩, .property ⟨⟨4, 11⟩, .call ⟨⟨4, 9⟩, .super⟩ []⟩
    ⟨⟨14, 15⟩, .identifier "a"⟩ .keyed true⟩]⟩

def keyedCall (here : Path) : CallSite where
  place := (here.item .properties 0).child .key
  span := ⟨4, 11⟩

/-- The expression `{ [super()]: a } = b`. -/
def keyedAssignment : Node :=
  ⟨⟨1, 21⟩, .assignment keyedPattern .plain ⟨⟨20, 21⟩, .identifier "b"⟩⟩

/-- The statement `var { [super()]: a } = b;`. -/
def keyedDeclaration : Node :=
  ⟨⟨0, 25⟩, .variableDeclaration
    [⟨⟨4, 24⟩, .variableDeclarator keyedPattern (some ⟨⟨23, 24⟩, .identifier "b"⟩)⟩] "var"⟩

/-- The constructor with the statement `({ [super()]: a } = b);`. -/
def assigningMethod : Node :=
  constructorOf [] [⟨⟨0, 23⟩, .expressionStatement keyedAssignment⟩]

def assigningPlace : Path := [⟨.expression, 0⟩, ⟨.body, 0⟩, ⟨.body, 0⟩, ⟨.value, 0⟩]

/-- The call in a pattern that is assigned to is read, and every path has called at its end. -/
theorem summarize_lists_calls_assignment :
    methodBody? assigningMethod = some [⟨⟨0, 23⟩, .expressionStatement keyedAssignment⟩]
      ∧ methodReadInFull assigningMethod = true
      ∧ constructorPaths .always [] assigningMethod false
          (.met (keyedCall (assigningPlace.child .left)) false)
      ∧ (keyedCall (assigningPlace.child .left) ∈ (summarize [] assigningMethod).calls.map Prod.fst
        ∨ Overlooked assigningMethod [] (keyedCall (assigningPlace.child .left)))
      ∧ (walkExpression assigningPlace keyedAssignment .start).out.has true = true
      ∧ ∀ called, constructorPaths Paths.finishing [] assigningMethod false (.ended called)
          ∨ constructorPaths Paths.finishing [] assigningMethod false (.returned called)
        ↔ called = true := by
  have isBody : methodBody? assigningMethod
      = some [⟨⟨0, 23⟩, .expressionStatement keyedAssignment⟩] := rfl
  have full : methodReadInFull assigningMethod = true := by decide
  obtain ⟨lists, carries, exact⟩ := summarize_lists_calls [] isBody
  obtain ⟨exits, states⟩ := exact full
  -- There is no finally block, so it does not matter how one is gone through.
  have same : constructorPaths .always [] assigningMethod
      = constructorPaths Paths.finishing [] assigningMethod := by
    simp only [assigningMethod, constructorOf, constructorPaths, performAll, perform, performForm]
  have met : constructorPaths .always [] assigningMethod false
      (.met (keyedCall (assigningPlace.child .left)) false) := by
    rw [same]
    exact (states _ false).1 (by decide)
  refine ⟨isBody, full, met, lists _ false met, ?_, fun called => (exits called).symm.trans ?_⟩
  · exact carries _ _ _ (keyedCall (assigningPlace.child .left)) (by decide)
  · cases called <;> decide

theorem bind_keyedPattern :
    bind here keyedPattern = .superCall (keyedCall here) := by
  have key := evaluate_superCall ((here.item .properties 0).child .key) ⟨4, 11⟩ ⟨4, 9⟩
  have value : bind ((here.item .properties 0).child .value) ⟨⟨14, 15⟩, .identifier "a"⟩ = .skip :=
    bind_of_callFree _ rfl
  calc bind here keyedPattern
    _ = ((evaluate ((here.item .properties 0).child .key)
            ⟨⟨4, 11⟩, .call ⟨⟨4, 9⟩, .super⟩ []⟩).andThen
          (bind ((here.item .properties 0).child .value) ⟨⟨14, 15⟩, .identifier "a"⟩)).andThen
        .skip := rfl
    _ = .superCall (keyedCall here) := by
      rw [key, value, Paths.andThen_skip, Paths.andThen_skip, keyedCall]

/-- A call in a parameter, or in the target of a declarator, is come to, and it is not listed. A
call in the test of a case is made before the constructor ends, and the analysis does not see that
it ends so. -/
theorem summarize_overlooks_call :
    (constructorPaths .always [] (constructorOf [keyedPattern] []) false
        (.met (keyedCall [⟨.params, 0⟩, ⟨.value, 0⟩]) false)
      ∧ (summarize [] (constructorOf [keyedPattern] [])).calls = [])
    ∧ (constructorPaths .always [] (constructorOf [] [keyedDeclaration]) false
        (.met (keyedCall [⟨.id, 0⟩, ⟨.declarations, 0⟩, ⟨.body, 0⟩, ⟨.body, 0⟩, ⟨.value, 0⟩]) false)
      ∧ (summarize [] (constructorOf [] [keyedDeclaration])).calls = [])
    ∧ constructorPaths .always [] (constructorOf [] [testedSwitch]) false (.ended true)
    ∧ (summarize [] (constructorOf [] [testedSwitch])).exits.has true = false := by
  refine ⟨⟨?_, by decide⟩, ⟨?_, by decide⟩, testedSwitch_ended .always, by decide⟩
  · simp only [constructorOf, constructorPaths, bindAll, performAll, bind_keyedPattern,
      Paths.andThen_skip]
    exact .inl rfl
  · simp only [constructorOf, keyedDeclaration, constructorPaths, bindAll, performAll, perform,
      performForm, declare, bind_keyedPattern, Paths.andThen_skip, Paths.skip_andThen]
    rw [evaluate?_of_callFree _ rfl, Paths.skip_andThen]
    exact .inr (.inl rfl)

end TemplateLint.Constructor
