import TemplateLint.Proofs.Constructor.Flow

/-!
# The summary of a constructor

The summary lists the calls of `super()` that the marks of the flow show, each once and with all
facts that they show, so if the flow matches some paths, the summary tells what these do
(`summarize_of_matches`).
-/

namespace TemplateLint.Constructor

open TemplateLint.Syntax

variable (calls : List (CallSite × Facts))

/-- The facts that are recorded for a call. -/
def factsFor (calls : List (CallSite × Facts)) (site : CallSite) : Facts :=
  (calls.lookup site).getD .unreachable

/-- The bits with which a call may be come to. -/
def PathSummary.statesAt (summary : PathSummary) (site : CallSite) : Facts :=
  factsFor summary.calls site

theorem factsFor_cons (known : CallSite) (facts : Facts) (rest : List (CallSite × Facts))
    (site : CallSite) :
    factsFor ((known, facts) :: rest) site = if known = site then facts else factsFor rest site := by
  by_cases same : known = site
  · simp [factsFor, same]
  · have differ : (site == known) = false := by simpa using Ne.symm same
    simp [factsFor, List.lookup_cons, differ, same]

theorem has_factsFor_recordCall (met : CallSite) (facts : Facts) (site : CallSite) (bit : Bool) :
    (factsFor (recordCall calls met facts) site).has bit = true
      ↔ (factsFor calls site).has bit = true ∨ (met = site ∧ facts.has bit = true) := by
  induction calls with
  | nil =>
    rw [recordCall, factsFor_cons]
    by_cases same : met = site <;> simp [same, factsFor]
  | cons call rest ih =>
    obtain ⟨known, before⟩ := call
    rw [recordCall]
    by_cases same : known = met
    · rw [if_pos same, factsFor_cons, factsFor_cons]
      by_cases here : known = site <;> simp [here, ← same]
    · rw [if_neg same, factsFor_cons, factsFor_cons]
      by_cases here : known = site
      · have other : met ≠ site := fun equal => same (here.trans equal.symm)
        simp [here, other]
      · rw [if_neg here, if_neg here]
        exact ih

theorem sites_recordCall (met : CallSite) (facts : Facts) :
    (recordCall calls met facts).map Prod.fst
      = if met ∈ calls.map Prod.fst then calls.map Prod.fst
        else calls.map Prod.fst ++ [met] := by
  induction calls with
  | nil => rfl
  | cons call rest ih =>
    obtain ⟨known, before⟩ := call
    rw [recordCall]
    by_cases same : known = met
    · simp [same]
    · have other : met ≠ known := Ne.symm same
      rw [if_neg same, List.map_cons, ih]
      by_cases listed : met ∈ rest.map Prod.fst
      · simp only [List.map_cons, if_pos listed, if_pos (List.mem_cons_of_mem known listed)]
      · have absent : met ∉ known :: rest.map Prod.fst := by simp [other, listed]
        simp only [List.map_cons, if_neg listed, if_neg absent, List.cons_append]

theorem nodup_recordCall {calls : List (CallSite × Facts)} (nodup : (calls.map Prod.fst).Nodup)
    (met : CallSite) (facts : Facts) : ((recordCall calls met facts).map Prod.fst).Nodup := by
  rw [sites_recordCall]
  split
  · exact nodup
  · next absent =>
    rw [List.nodup_append]
    refine ⟨nodup, by simp, ?_⟩
    rintro site listed _ single rfl
    exact absent (List.mem_singleton.1 single ▸ listed)

def recordAll (calls met : List (CallSite × Facts)) : List (CallSite × Facts) :=
  met.foldl (fun calls (site, facts) => recordCall calls site facts) calls

theorem recordAll_cons (site : CallSite) (facts : Facts) (rest : List (CallSite × Facts)) :
    recordAll calls ((site, facts) :: rest) = recordAll (recordCall calls site facts) rest := rfl

theorem has_factsFor_recordAll (met : List (CallSite × Facts)) (site : CallSite) (bit : Bool) :
    (factsFor (recordAll calls met) site).has bit = true
      ↔ (factsFor calls site).has bit = true
        ∨ ∃ facts, (site, facts) ∈ met ∧ facts.has bit = true := by
  induction met generalizing calls with
  | nil => simp [recordAll]
  | cons call rest ih =>
    obtain ⟨known, before⟩ := call
    rw [recordAll_cons, ih, has_factsFor_recordCall, or_assoc]
    refine or_congr_right ?_
    constructor
    · rintro (⟨rfl, has⟩ | ⟨facts, member, has⟩)
      · exact ⟨before, .head _, has⟩
      · exact ⟨facts, .tail _ member, has⟩
    · rintro ⟨facts, member, has⟩
      rcases List.mem_cons.1 member with same | member
      · cases same
        exact .inl ⟨rfl, has⟩
      · exact .inr ⟨facts, member, has⟩

theorem mem_sites_recordAll (met : List (CallSite × Facts)) (site : CallSite) :
    site ∈ (recordAll calls met).map Prod.fst
      ↔ site ∈ calls.map Prod.fst ∨ ∃ facts, (site, facts) ∈ met := by
  induction met generalizing calls with
  | nil => simp [recordAll]
  | cons call rest ih =>
    obtain ⟨known, before⟩ := call
    have recorded : site ∈ (recordCall calls known before).map Prod.fst
        ↔ site ∈ calls.map Prod.fst ∨ site = known := by
      rw [sites_recordCall]
      by_cases listed : known ∈ calls.map Prod.fst
      · rw [if_pos listed]
        exact ⟨.inl, fun either => either.elim id fun same => same ▸ listed⟩
      · rw [if_neg listed, List.mem_append, List.mem_singleton]
    rw [recordAll_cons, ih, recorded, or_assoc]
    refine or_congr_right ?_
    simp only [List.mem_cons, Prod.mk.injEq, exists_or, exists_and_left, exists_eq, and_true]

theorem nodup_recordAll {calls : List (CallSite × Facts)} (nodup : (calls.map Prod.fst).Nodup)
    (met : List (CallSite × Facts)) : ((recordAll calls met).map Prod.fst).Nodup := by
  induction met generalizing calls with
  | nil => exact nodup
  | cons call rest ih => exact ih (nodup_recordCall nodup call.1 call.2)

theorem mem_reachedCalls (marks : List Mark) (site : CallSite) (facts : Facts) :
    (site, facts) ∈ (marks.filterMap Mark.called?).filter (fun call => !call.2.isUnreachable)
      ↔ Mark.called site facts ∈ marks ∧ facts.isUnreachable = false := by
  rw [List.mem_filter, List.mem_filterMap, Bool.not_eq_true']
  refine and_congr_left fun _ => ⟨?_, fun member => ⟨_, member, rfl⟩⟩
  rintro ⟨mark, member, called⟩
  cases mark with
  | called known before =>
    cases called
    exact member
  | _ => cases called

theorem showsIn_met (marks : List Mark) (site : CallSite) (bit : Bool) :
    showsIn marks (.met site bit)
      ↔ ∃ facts, Mark.called site facts ∈ marks ∧ facts.has bit = true := by
  constructor
  · rintro ⟨mark, member, shown⟩
    cases mark with
    | called known facts =>
      obtain ⟨rfl, has⟩ := shown
      exact ⟨facts, member, has⟩
    | _ => cases shown
  · rintro ⟨facts, member, has⟩
    exact ⟨_, member, rfl, has⟩

theorem has_factsFor_callsOf (marks : List Mark) (site : CallSite) (bit : Bool) :
    (factsFor (callsOf marks) site).has bit = true ↔ showsIn marks (.met site bit) := by
  refine (has_factsFor_recordAll [] _ site bit).trans ?_
  rw [showsIn_met]
  simp only [factsFor, List.lookup_nil, Option.getD_none, Facts.has_unreachable,
    Bool.false_eq_true, false_or, mem_reachedCalls]
  refine exists_congr fun facts => ⟨fun ⟨⟨member, _⟩, has⟩ => ⟨member, has⟩, ?_⟩
  rintro ⟨member, has⟩
  exact ⟨⟨member, (Facts.not_isUnreachable_iff facts).2 ⟨bit, has⟩⟩, has⟩

theorem mem_sites_callsOf (marks : List Mark) (site : CallSite) :
    site ∈ (callsOf marks).map Prod.fst ↔ ∃ bit, showsIn marks (.met site bit) := by
  refine (mem_sites_recordAll [] _ site).trans ?_
  simp only [List.map_nil, List.not_mem_nil, false_or, mem_reachedCalls, showsIn_met,
    Facts.not_isUnreachable_iff]
  rw [exists_comm]
  exact exists_congr fun facts => exists_and_left.symm

/-- The statements of a method. -/
def methodBody? : Node → Option (List Node)
  | ⟨_, .methodDefinition _ _ ⟨_, .function _ _ _ ⟨_, .block body⟩ _ _⟩ _ _ _⟩ => some body
  | _ => none

theorem summarize_of_methodBody {method : Node} {body : List Node}
    (isBody : methodBody? method = some body) (here : Path) :
    summarize here method
      = let flow := walkStatements ((here.child .value).child .body) .body 0 body .start
        ⟨(returnedFacts flow.marks).join flow.out, callsOf flow.marks⟩ := by
  unfold methodBody? at isBody
  split at isBody
  · cases isBody
    rfl
  · cases isBody

/-- The summary of a constructor whose flow matches some paths tells exactly what these do: with
which bits they come to the end or to a return, which calls they come to, each once, and with which
bits. -/
theorem summarize_of_matches {here : Path} {method : Node} {body : List Node}
    (isBody : methodBody? method = some body) {paths : Paths}
    (known : (walkStatements ((here.child .value).child .body) .body 0 body .start).Matches .start
      paths) :
    (∀ called, (summarize here method).exits.has called = true
      ↔ paths false (.ended called) ∨ paths false (.returned called))
    ∧ (∀ site called, ((summarize here method).statesAt site).has called = true
      ↔ paths false (.met site called))
    ∧ (∀ site, site ∈ (summarize here method).calls.map Prod.fst
      ↔ ∃ called, paths false (.met site called))
    ∧ ((summarize here method).calls.map Prod.fst).Nodup := by
  rw [summarize_of_methodBody isBody]
  have fromStart : ∀ outcome,
      (walkStatements ((here.child .value).child .body) .body 0 body .start).shows outcome
        ↔ paths false outcome := by
    intro outcome
    rw [known outcome]
    simp
  refine ⟨fun called => ?_, fun site called => ?_, fun site => ?_, ?_⟩
  · rw [Facts.has_join, Bool.or_eq_true, has_returnedFacts, ← fromStart, ← fromStart]
    exact or_comm
  · rw [← fromStart]
    exact has_factsFor_callsOf _ site called
  · simp only [← fromStart]
    exact mem_sites_callsOf _ site
  · exact nodup_recordAll (by simp) _

end TemplateLint.Constructor
