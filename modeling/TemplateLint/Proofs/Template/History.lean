import Mathlib.Data.List.Nodup
import TemplateLint.Grammar.Parse
import TemplateLint.Proofs.Template.Examination

/-!
# Questions about a document in any order

A document can be validated, its references can be resolved, and it can be asked of a single
reference whether it is in order (`Operation`). For every sequence of operations: **which
references are unresolved does not depend on what was asked before** (`resolve_after_history`),
**a faulty attribute is reported once** (`faults_reported_once`), and **the order of the
references does not matter** (`resolve_perm`).
-/

namespace TemplateLint.Template

open TemplateLint.Syntax TemplateLint.Scope TemplateLint.Decorator

variable {site : BindingAttribute} {progress : Progress} {document : Document} {position : Nat}

/-! ## Operations -/

/-- What can be done with a document. -/
inductive Operation where
  | validate
  | resolve (considerTypeof : Bool) (references : List Occurrence)
  | ask (considerTypeof : Bool) (reference : Occurrence)

/-- An attribute is looked at for a reference that is not excused: it is around the reference,
and no attribute nearer to the reference binds the name. -/
def Consults (document : Document) (considerTypeof : Bool) (reference : Occurrence)
    (site : BindingAttribute) : Prop :=
  isExempt document considerTypeof reference = false
    ∧ ∃ nearer further,
      enclosingAttributes document.tree reference.place = nearer ++ site :: further
        ∧ ∀ other ∈ nearer, other.binds reference.id.name = false

theorem mem_consulted_iff (document : Document) (considerTypeof : Bool) (reference : Occurrence)
    (site : BindingAttribute) :
    site ∈ consulted document considerTypeof reference
      ↔ Consults document considerTypeof reference site := by
  unfold consulted Consults
  cases isExempt document considerTypeof reference with
  | true => simp
  | false => simp [mem_takeThrough_iff]

namespace Operation

/-- The answer to an operation, and the progress after it. -/
def perform (document : Document) : Operation → Progress → List Finding × Progress
  | .validate, progress => Template.validate document progress
  | .resolve considerTypeof references, progress =>
    Template.resolve document considerTypeof references progress
  | .ask considerTypeof reference, progress =>
    ([], (isResolved document considerTypeof reference progress).2)

/-- The operation reports the faults that have been found so far. -/
def drains : Operation → Bool
  | .validate | .resolve .. => true
  | .ask .. => false

/-- An operation looks at an attribute. -/
def Examines (document : Document) : Operation → BindingAttribute → Prop
  | .validate, site => site ∈ documentAttributes document.tree
  | .resolve considerTypeof references, site =>
    ∃ reference ∈ references, Consults document considerTypeof reference site
  | .ask considerTypeof reference, site => Consults document considerTypeof reference site

/-- The attributes that an operation looks at, in order. -/
def attributes (document : Document) : Operation → List BindingAttribute
  | .validate => documentAttributes document.tree
  | .resolve considerTypeof references => references.flatMap (consulted document considerTypeof)
  | .ask considerTypeof reference => consulted document considerTypeof reference

/-- The unresolved references that an operation reports. -/
def undefined (document : Document) : Operation → List Finding
  | .resolve considerTypeof references =>
    (references.filter fun reference => Undefined document considerTypeof reference).map
      fun reference => .unresolved reference.id
  | _ => []

theorem mem_attributes_iff (document : Document) (operation : Operation) (site : BindingAttribute) :
    site ∈ operation.attributes document ↔ operation.Examines document site := by
  cases operation with
  | validate => exact Iff.rfl
  | resolve => simp [attributes, Examines, mem_consulted_iff]
  | ask => exact mem_consulted_iff ..

section Perform

variable {document : Document} (view : document.tree.IsView)

include view

theorem mem_documentAttributes (operation : Operation)
    (member : site ∈ operation.attributes document) :
    site ∈ documentAttributes document.tree := by
  cases operation with
  | validate => exact member
  | resolve =>
    obtain ⟨reference, _, member⟩ := List.mem_flatMap.1 member
    exact mem_documentAttributes_of_consulted view member
  | ask => exact mem_documentAttributes_of_consulted view member

variable {progress : Progress} (sound : progress.Sound document)

include sound

/-- **What an operation does**: it looks at its attributes and may hand out what is due. -/
theorem perform_eq (operation : Operation) :
    operation.perform document progress
      = if operation.drains then
          ((progress.examineAll document (operation.attributes document)).pending
            ++ operation.undefined document,
            ⟨(progress.examineAll document (operation.attributes document)).known, []⟩)
        else ([], progress.examineAll document (operation.attributes document)) := by
  cases operation with
  | validate => simp [perform, drains, attributes, undefined, Template.validate, Progress.drain]
  | resolve considerTypeof references => exact resolve_eq view sound considerTypeof references
  | ask considerTypeof reference =>
    rw [perform, isResolved_eq view sound]
    rfl

theorem sound_perform (operation : Operation) :
    (operation.perform document progress).2.Sound document := by
  have after := sound.examineAll fun site => mem_documentAttributes view operation
  rw [perform_eq view sound]
  split
  · exact ⟨after.names, fun finding member => nomatch member⟩
  · exact after

theorem seen_perform (operation : Operation) :
    (operation.perform document progress).2.seen
      = seenAfter progress.seen (operation.attributes document) := by
  rw [perform_eq view sound, ← (Progress.examineAll_eq document progress _).1]
  split <;> rfl

end Perform

end Operation

/-! ## Sequences of operations -/

section Sequences

variable (document : Document)

/-- The progress after operations. -/
def after (operations : List Operation) (progress : Progress) : Progress :=
  operations.foldl (fun current operation => (operation.perform document current).2) progress

/-- The answers to operations, one after the other. -/
def answers : List Operation → Progress → List (List Finding)
  | [], _ => []
  | operation :: rest, progress =>
    (operation.perform document progress).1
      :: answers rest (operation.perform document progress).2

theorem getElem?_answers (operations : List Operation) (progress : Progress) (position : Nat) :
    (answers document operations progress)[position]?
      = operations[position]?.map fun operation =>
        (operation.perform document (after document (operations.take position) progress)).1 := by
  induction operations generalizing progress position with
  | nil => rfl
  | cons operation rest ih =>
    cases position with
    | zero => rfl
    | succ position => exact ih _ position

variable {document} (view : document.tree.IsView)

include view

theorem sound_after (sound : progress.Sound document) (operations : List Operation) :
    (after document operations progress).Sound document := by
  induction operations generalizing progress with
  | nil => exact sound
  | cons operation rest ih => exact ih (Operation.sound_perform view sound operation)

theorem seen_after (sound : progress.Sound document) (operations : List Operation) :
    (after document operations progress).seen
      = seenAfter progress.seen (operations.flatMap (Operation.attributes document)) := by
  induction operations generalizing progress with
  | nil => rfl
  | cons operation rest ih =>
    have later := ih (Operation.sound_perform view sound operation)
    rw [Operation.seen_perform view sound] at later
    rw [after, List.foldl_cons, ← after, later, List.flatMap_cons, seenAfter_append]

end Sequences

/-! ## Unresolved references -/

theorem fault?_eq_some {finding : Finding} (found : Progress.fault? document site = some finding) :
    site.names? = none ∧ finding.site? = some site ∧ finding.isUnresolved = false := by
  unfold Progress.fault? at found
  split at found
  · cases found
  next none =>
    cases found
    exact ⟨none, rfl, rfl⟩

theorem filter_isUnresolved_pending (sound : progress.Sound document) :
    progress.pending.filter Finding.isUnresolved = [] := by
  refine List.filter_eq_nil_iff.2 fun finding member => ?_
  obtain ⟨site, fault⟩ := sound.faults finding member
  simp [(fault?_eq_some fault).2.2]

theorem filter_isUnresolved_undefined (document : Document) (operation : Operation) :
    (operation.undefined document).filter Finding.isUnresolved
      = operation.undefined document := by
  refine List.filter_eq_self.2 fun finding member => ?_
  cases operation with
  | resolve =>
    obtain ⟨reference, _, rfl⟩ := List.mem_map.1 member
    rfl
  | validate | ask => cases member

theorem filter_isUnresolved_resolve (view : document.tree.IsView) (sound : progress.Sound document)
    (considerTypeof : Bool) (references : List Occurrence) :
    (resolve document considerTypeof references progress).1.filter Finding.isUnresolved
      = (Operation.resolve considerTypeof references).undefined document := by
  have later := sound.examineAll fun site =>
    Operation.mem_documentAttributes view (.resolve considerTypeof references)
  have kept := filter_isUnresolved_undefined document (.resolve considerTypeof references)
  rw [resolve_eq view sound, List.filter_append]
  exact (congrArg₂ _ (filter_isUnresolved_pending later) kept).trans (List.nil_append _)

/-- **Which references are unresolved does not depend on what was asked before.** After any
operations on a document, the findings of a resolution about references are one for each
reference that is `Undefined`, in the order of the references; and the answer for a single
reference is whether it is. -/
theorem resolve_after_history (root : Node) (text : List Char) (registry : Registry)
    (history : List Operation) (considerTypeof : Bool) (references : List Occurrence) :
    let document : Document := ⟨root.tree, text, registry⟩
    let progress := after document history .start
    (resolve document considerTypeof references progress).1.filter Finding.isUnresolved
        = (references.filter fun reference => Undefined document considerTypeof reference).map
          (fun reference => .unresolved reference.id)
      ∧ ∀ reference, (isResolved document considerTypeof reference progress).1
        = !decide (Undefined document considerTypeof reference) := by
  intro document progress
  have view : document.tree.IsView := root.isView_tree
  have sound : progress.Sound document := sound_after view (Progress.sound_start document) history
  constructor
  · exact filter_isUnresolved_resolve view sound considerTypeof references
  · intro reference
    rw [isResolved_eq view sound]

/-! ## Faulty attributes -/

def faulty (findings : List Finding) : List BindingAttribute := findings.filterMap Finding.site?

@[simp] theorem faulty_append (first second : List Finding) :
    faulty (first ++ second) = faulty first ++ faulty second := by
  simp [faulty]

@[simp] theorem faulty_undefined (document : Document) (operation : Operation) :
    faulty (operation.undefined document) = [] := by
  refine List.filterMap_eq_nil_iff.2 fun finding member => ?_
  cases operation with
  | resolve =>
    obtain ⟨reference, _, rfl⟩ := List.mem_map.1 member
    rfl
  | validate | ask => cases member

theorem faulty_filterMap_fault? (document : Document) (sites : List BindingAttribute) :
    faulty (sites.filterMap (Progress.fault? document))
      = sites.filter fun site => site.names?.isNone := by
  induction sites with
  | nil => rfl
  | cons site rest ih =>
    rw [List.filterMap_cons, List.filter_cons]
    cases names : site.names? with
    | none =>
      simp only [Progress.fault?, names, Option.isNone_none, if_true]
      rw [← ih]
      rfl
    | some found => simpa [Progress.fault?, names] using ih

theorem faulty_perform (view : document.tree.IsView)
    (sound : progress.Sound document) (operation : Operation) :
    let new := (unseen progress.seen (operation.attributes document)).filter fun site =>
      site.names?.isNone
    if operation.drains then
      faulty (operation.perform document progress).1 = faulty progress.pending ++ new
        ∧ faulty (operation.perform document progress).2.pending = []
    else
      faulty (operation.perform document progress).1 = []
        ∧ faulty (operation.perform document progress).2.pending
          = faulty progress.pending ++ new := by
  intro new
  have pending := (Progress.examineAll_eq document progress (operation.attributes document)).2
  rw [Operation.perform_eq view sound]
  cases operation.drains with
  | true =>
    simp only [if_true, pending, faulty_append, faulty_undefined, faulty_filterMap_fault?,
      List.append_nil]
    exact ⟨rfl, rfl⟩
  | false =>
    simp only [Bool.false_eq_true, if_false, pending, faulty_append, faulty_filterMap_fault?]
    exact ⟨rfl, rfl⟩

/-- **Nothing is lost and nothing is said twice**: the attributes of the findings handed out,
and of those that still wait, are the ones that waited at first and then the new ones without
names, in the order in which they were first looked at. -/
theorem faulty_answers (view : document.tree.IsView)
    (sound : progress.Sound document) (operations : List Operation) :
    (answers document operations progress).flatMap faulty
        ++ faulty (after document operations progress).pending
      = faulty progress.pending
        ++ (unseen progress.seen (operations.flatMap (Operation.attributes document))).filter
          fun site => site.names?.isNone := by
  induction operations generalizing progress with
  | nil => simp [answers, after, unseen]
  | cons operation rest ih =>
    have later := ih (Operation.sound_perform view sound operation)
    have now := faulty_perform view sound operation
    rw [Operation.seen_perform view sound] at later
    rw [answers, List.flatMap_cons, after, List.foldl_cons, ← after, List.append_assoc, later,
      List.flatMap_cons, unseen_append, List.filter_append]
    cases drains : operation.drains with
    | true =>
      rw [drains, if_pos rfl] at now
      rw [now.1, now.2, List.nil_append, List.append_assoc]
    | false =>
      rw [drains, if_neg Bool.false_ne_true] at now
      rw [now.1, now.2, List.nil_append, List.append_assoc]

section Positions

variable (document : Document) (operations : List Operation)

/-- The attribute is first looked at by the operation at a position. -/
structure FirstLook (site : BindingAttribute) (position : Nat) : Prop where
  looks : ∃ operation, operations[position]? = some operation ∧ operation.Examines document site
  noneBefore : ∀ earlier < position, ∀ operation, operations[earlier]? = some operation →
    ¬ operation.Examines document site

/-- No operation from one position up to another hands out findings. -/
def QuietBetween (first last : Nat) : Prop :=
  ∀ position, first ≤ position → position < last →
    ∀ operation, operations[position]? = some operation → operation.drains = false

/-- The operation at a position is the first to hand out findings from the time on when an
attribute is first looked at. -/
def FirstDrain (site : BindingAttribute) (position : Nat) : Prop :=
  (∃ operation, operations[position]? = some operation ∧ operation.drains = true)
    ∧ ∃ first ≤ position, FirstLook document operations site first
      ∧ QuietBetween operations first position

end Positions

section Reports

variable {document : Document} (view : document.tree.IsView)

include view

theorem settled_attributes (operations : List Operation) :
    ∀ site ∈ operations.flatMap (Operation.attributes document),
      ∀ other ∈ operations.flatMap (Operation.attributes document),
        site.place = other.place → site = other := by
  have listed : ∀ site ∈ operations.flatMap (Operation.attributes document),
      site ∈ documentAttributes document.tree := by
    intro site member
    obtain ⟨operation, _, member⟩ := List.mem_flatMap.1 member
    exact Operation.mem_documentAttributes view operation member
  intro site here other there same
  exact eq_of_place_eq view (listed site here) (listed other there) same

theorem mem_seen_after_iff {operations : List Operation}
    (listed : site ∈ documentAttributes document.tree) :
    site.place ∈ (after document operations .start).seen
      ↔ ∃ operation ∈ operations, operation.Examines document site := by
  rw [seen_after view (Progress.sound_start document), mem_seenAfter]
  constructor
  · rintro (none | ⟨other, member, same⟩)
    · cases none
    · obtain ⟨operation, performed, member⟩ := List.mem_flatMap.1 member
      have listedOther := Operation.mem_documentAttributes view operation member
      obtain rfl := eq_of_place_eq view listedOther listed same
      exact ⟨operation, performed, (Operation.mem_attributes_iff ..).1 member⟩
  · rintro ⟨operation, performed, looks⟩
    have member := (Operation.mem_attributes_iff ..).2 looks
    exact .inr ⟨site, List.mem_flatMap.2 ⟨operation, performed, member⟩, rfl⟩

theorem mem_new_iff {earlier : List Operation} {operation : Operation} :
    site ∈ (unseen (after document earlier .start).seen (operation.attributes document)).filter
        (fun site => site.names?.isNone)
      ↔ site.names? = none ∧ operation.Examines document site
        ∧ ∀ other ∈ earlier, ¬ other.Examines document site := by
  have settled : ∀ site ∈ operation.attributes document,
      ∀ other ∈ operation.attributes document, site.place = other.place → site = other := by
    simpa using settled_attributes view [operation]
  rw [List.mem_filter, mem_unseen_iff settled, Operation.mem_attributes_iff,
    Option.isNone_iff_eq_none, and_comm]
  refine and_congr_right fun _ => and_congr_right fun looks => ?_
  have listed := Operation.mem_documentAttributes view operation
    ((Operation.mem_attributes_iff ..).2 looks)
  rw [mem_seen_after_iff view listed]
  simp

omit view in
theorem firstLook_iff {operations : List Operation} {operation : Operation}
    (found : operations[position]? = some operation) (site : BindingAttribute) :
    FirstLook document operations site position ↔ operation.Examines document site
      ∧ ∀ other ∈ operations.take position, ¬ other.Examines document site := by
  constructor
  · rintro ⟨⟨other, foundOther, looks⟩, none⟩
    obtain rfl := Option.some.inj (found.symm.trans foundOther)
    refine ⟨looks, fun other member => ?_⟩
    obtain ⟨earlier, foundEarlier⟩ := List.mem_iff_getElem?.1 member
    rw [List.getElem?_take] at foundEarlier
    split at foundEarlier
    next before => exact none earlier before other foundEarlier
    next => cases foundEarlier
  · rintro ⟨looks, none⟩
    refine ⟨⟨operation, found, looks⟩, fun earlier before other foundOther => ?_⟩
    refine none other (List.mem_iff_getElem?.2 ⟨earlier, ?_⟩)
    rw [List.getElem?_take, if_pos before, foundOther]

omit view in
theorem quietBetween_succ {operations : List Operation} {operation : Operation}
    (found : operations[position]? = some operation) {first : Nat} (before : first ≤ position) :
    QuietBetween operations first (position + 1)
      ↔ QuietBetween operations first position ∧ operation.drains = false := by
  constructor
  · intro quiet
    refine ⟨fun other after before => quiet other after (by omega), ?_⟩
    exact quiet position before (by omega) operation found
  · rintro ⟨quiet, silent⟩ other after before performed foundOther
    by_cases last : other = position
    · subst last
      obtain rfl := Option.some.inj (found.symm.trans foundOther)
      exact silent
    · exact quiet other after (by omega) performed foundOther

theorem mem_due_iff {operations : List Operation} {operation : Operation}
    (found : operations[position]? = some operation)
    (waits : site ∈ faulty (after document (operations.take position) .start).pending
      ↔ site.names? = none ∧ ∃ first < position, FirstLook document operations site first
        ∧ QuietBetween operations first position) :
    site ∈ faulty (after document (operations.take position) .start).pending
        ++ (unseen (after document (operations.take position) .start).seen
          (operation.attributes document)).filter (fun site => site.names?.isNone)
      ↔ site.names? = none ∧ ∃ first ≤ position, FirstLook document operations site first
        ∧ QuietBetween operations first position := by
  rw [List.mem_append, waits, mem_new_iff view, ← and_or_left, ← firstLook_iff found]
  refine and_congr_right fun _ => ?_
  constructor
  · rintro (⟨first, before, looks, quiet⟩ | looks)
    · exact ⟨first, by omega, looks, quiet⟩
    · exact ⟨position, Nat.le_refl _, looks, fun other after before => by omega⟩
  · rintro ⟨first, before, looks, quiet⟩
    by_cases now : first = position
    · exact .inr (now ▸ looks)
    · exact .inl ⟨first, by omega, looks, quiet⟩

theorem mem_pending_iff (operations : List Operation) (site : BindingAttribute) {count : Nat}
    (enough : count ≤ operations.length) :
    site ∈ faulty (after document (operations.take count) .start).pending
      ↔ site.names? = none ∧ ∃ first < count, FirstLook document operations site first
        ∧ QuietBetween operations first count := by
  induction count with
  | zero => simp [after, Progress.start, faulty]
  | succ count ih =>
    obtain ⟨operation, found⟩ : ∃ operation, operations[count]? = some operation :=
      ⟨_, List.getElem?_eq_getElem enough⟩
    have sound := sound_after view (Progress.sound_start document) (operations.take count)
    have step : after document (operations.take (count + 1)) .start
        = (operation.perform document (after document (operations.take count) .start)).2 := by
      rw [after, List.take_add_one, found, List.foldl_append]
      rfl
    have now := faulty_perform view sound operation
    rw [step]
    cases drains : operation.drains with
    | true =>
      rw [drains, if_pos rfl] at now
      rw [now.2]
      constructor
      · exact fun member => nomatch member
      · rintro ⟨_, first, before, _, quiet⟩
        have silent := ((quietBetween_succ found (by omega)).1 quiet).2
        rw [drains] at silent
        cases silent
    | false =>
      rw [drains, if_neg Bool.false_ne_true] at now
      rw [now.2, mem_due_iff view found (ih (by omega))]
      refine and_congr_right fun _ => exists_congr fun first => ?_
      rw [Nat.lt_succ_iff]
      refine and_congr_right fun before => and_congr_right fun _ => ?_
      rw [quietBetween_succ found before, drains]
      simp

theorem fault?_of_mem_perform (sound : progress.Sound document) {operation : Operation}
    {finding : Finding} (member : finding ∈ (operation.perform document progress).1)
    (about : finding.site? = some site) : Progress.fault? document site = some finding := by
  have later := sound.examineAll fun site => Operation.mem_documentAttributes view operation
  rw [Operation.perform_eq view sound] at member
  split at member
  · rcases List.mem_append.1 member with due | undefined
    · obtain ⟨other, fault⟩ := later.faults finding due
      obtain rfl : other = site := Option.some.inj ((fault?_eq_some fault).2.1.symm.trans about)
      exact fault
    · have none := List.filterMap_eq_nil_iff.1 (faulty_undefined document operation)
      rw [none finding undefined] at about
      cases about
  · cases member

theorem mem_faulty_answer_iff {operations : List Operation} {answer : List Finding}
    (found : (answers document operations .start)[position]? = some answer)
    (site : BindingAttribute) :
    site ∈ faulty answer ↔ site.names? = none ∧ FirstDrain document operations site position := by
  rw [getElem?_answers] at found
  obtain ⟨operation, foundOperation, rfl⟩ := Option.map_eq_some_iff.1 found
  have inside := (List.getElem?_eq_some_iff.1 foundOperation).1
  have sound := sound_after view (Progress.sound_start document) (operations.take position)
  have now := faulty_perform view sound operation
  have drainsHere : (∃ performed, operations[position]? = some performed
      ∧ performed.drains = true) ↔ operation.drains = true := by
    simp [foundOperation]
  rw [FirstDrain, drainsHere]
  cases drains : operation.drains with
  | true =>
    rw [drains, if_pos rfl] at now
    rw [now.1, mem_due_iff view foundOperation
      (mem_pending_iff view operations site (Nat.le_of_lt inside))]
    simp
  | false =>
    rw [drains, if_neg Bool.false_ne_true] at now
    simp [now.1]

end Reports

/-- **A faulty attribute is reported once.** Over any operations that end with one that hands
out findings, the findings about attributes are about those that were looked at and have no
names, each once, in the words of its fault. The finding about an attribute is handed out by the
first operation that hands out findings from the time on when the attribute is first looked
at. -/
theorem faults_reported_once (root : Node) (text : List Char) (registry : Registry)
    (earlier : List Operation) (last : Operation) (drains : last.drains = true) :
    let document : Document := ⟨root.tree, text, registry⟩
    let operations := earlier ++ [last]
    let handedOut := answers document operations .start
    ((handedOut.flatMap faulty).map BindingAttribute.place).Nodup
      ∧ (∀ site, site ∈ handedOut.flatMap faulty ↔ site.names? = none
        ∧ ∃ operation ∈ operations, operation.Examines document site)
      ∧ (∀ answer ∈ handedOut, ∀ finding ∈ answer, ∀ site, finding.site? = some site →
        Progress.fault? document site = some finding)
      ∧ ∀ position answer, handedOut[position]? = some answer →
        ∀ site, site ∈ faulty answer ↔ site.names? = none
          ∧ FirstDrain document operations site position := by
  intro document operations handedOut
  have view : document.tree.IsView := root.isView_tree
  have start := Progress.sound_start document
  have nothingWaits : faulty (after document operations .start).pending = [] := by
    have now := faulty_perform view (sound_after view start earlier) last
    rw [drains, if_pos rfl] at now
    rw [after, List.foldl_append]
    exact now.2
  have whole : handedOut.flatMap faulty
      = (unseen [] (operations.flatMap (Operation.attributes document))).filter
        fun site => site.names?.isNone := by
    have all := faulty_answers view start operations
    rwa [nothingWaits, List.append_nil] at all
  refine ⟨?_, fun site => ?_, ?_, fun position answer found => mem_faulty_answer_iff view found⟩
  · rw [whole]
    exact (nodup_unseen _ _).sublist (List.filter_sublist.map _)
  · rw [whole, List.mem_filter, mem_unseen_iff (settled_attributes view operations),
      Option.isNone_iff_eq_none, and_comm, List.mem_flatMap]
    simp [Operation.mem_attributes_iff]
  · intro answer member finding listed site about
    obtain ⟨position, found⟩ := List.mem_iff_getElem?.1 member
    rw [getElem?_answers] at found
    obtain ⟨operation, _, rfl⟩ := Option.map_eq_some_iff.1 found
    exact fault?_of_mem_perform view (sound_after view start _) listed about

/-- In `<X as={ this.a }>{ b }</X>;` the attribute is looked at for the reference `b`, and the
validation that follows reports it; a later resolution does not. -/
theorem faults_reported_once_element : ∃ root,
    Grammar.parse "<X as={ this.a }>{ b }</X>;" = .ok root
      ∧ ∃ site, documentAttributes root.tree = [site]
        ∧ let reference : Occurrence :=
            ⟨[⟨.expression, 0⟩, ⟨.children, 0⟩, ⟨.expression, 0⟩, ⟨.body, 0⟩], ⟨⟨19, 20⟩, "b"⟩⟩
          let operations : List Operation :=
            [.ask false reference, .validate, .resolve false [reference]]
          let handedOut := answers ⟨root.tree, [], .empty⟩ operations .start
          handedOut.flatMap faulty = [site]
            ∧ ∀ answer, handedOut[1]? = some answer → site ∈ faulty answer := by
  have run : ((Grammar.parse "<X as={ this.a }>{ b }</X>;").toOption.any fun root =>
      (documentAttributes root.tree).map (fun site => site.names?.isNone) == [true]) = true := by
    decide +kernel
  obtain ⟨root, parsed, run⟩ := Grammar.exists_of_any_parse run
  obtain ⟨site, alone, invalid⟩ := List.map_eq_singleton_iff.1 (beq_iff_eq.1 run)
  rw [Option.isNone_iff_eq_none] at invalid
  refine ⟨root, parsed, site, alone, ?_⟩
  intro reference operations handedOut
  obtain ⟨nodup, reported, _, placed⟩ := faults_reported_once root [] .empty
    [.ask false reference, .validate] (.resolve false [reference]) rfl
  have validated : Operation.validate.Examines ⟨root.tree, [], .empty⟩ site := by
    rw [Operation.Examines, alone]
    exact List.mem_singleton_self site
  constructor
  · have member := (reported site).2 ⟨invalid, .validate, by simp, validated⟩
    refine List.perm_singleton.1 ((List.perm_ext_iff_of_nodup (.of_map _ nodup)
      (List.nodup_singleton site)).2 fun other => ⟨fun listed => ?_, fun same => ?_⟩)
    · obtain ⟨_, operation, _, looks⟩ := (reported other).1 listed
      rw [← alone]
      exact Operation.mem_documentAttributes root.isView_tree operation
        ((Operation.mem_attributes_iff ..).2 looks)
    · rwa [List.mem_singleton.1 same]
  · intro answer found
    refine (placed 1 answer found site).2 ⟨invalid, ⟨.validate, rfl, rfl⟩, ?_⟩
    by_cases asked : (Operation.ask false reference).Examines ⟨root.tree, [], .empty⟩ site
    · refine ⟨0, by decide, (firstLook_iff rfl site).2 ⟨asked, by simp⟩, ?_⟩
      intro position _ before operation found
      obtain rfl : position = 0 := by omega
      cases found
      rfl
    · refine ⟨1, by decide, (firstLook_iff rfl site).2 ⟨validated, by simpa using asked⟩, ?_⟩
      intro position after before
      omega

/-! ## The order of references -/

section Order

variable {document : Document} (view : document.tree.IsView) (considerTypeof : Bool)
  {references others : List Occurrence}

include view

theorem unseen_perm (perm : references.Perm others) :
    (unseen [] (references.flatMap (consulted document considerTypeof))).Perm
      (unseen [] (others.flatMap (consulted document considerTypeof))) := by
  have nodup : ∀ sites, (unseen [] sites).Nodup := fun sites => .of_map _ (nodup_unseen [] sites)
  refine (List.perm_ext_iff_of_nodup (nodup _) (nodup _)).2 fun site => ?_
  have settled : ∀ references : List Occurrence, _ := fun references =>
    settled_attributes view [Operation.resolve considerTypeof references]
  simp only [List.flatMap_singleton, Operation.attributes] at settled
  rw [mem_unseen_iff (settled references), mem_unseen_iff (settled others),
    (perm.flatMap_right _).mem_iff]

theorem resolve_again (sound : progress.Sound document)
    (resolved : ∀ reference ∈ others, reference ∈ references) :
    (resolve document considerTypeof others
        (resolve document considerTypeof references progress).2).1
      = (Operation.resolve considerTypeof others).undefined document := by
  let earlier := Operation.resolve considerTypeof references
  have nothingWaits : (resolve document considerTypeof references progress).2.pending = [] := by
    rw [resolve_eq view sound]
  have nothingNew : unseen (resolve document considerTypeof references progress).2.seen
      (others.flatMap (consulted document considerTypeof)) = [] := by
    refine List.eq_nil_iff_forall_not_mem.2 fun site member => ?_
    obtain ⟨listed, new⟩ := mem_unseen_imp member
    obtain ⟨reference, here, looks⟩ := List.mem_flatMap.1 listed
    have seen := Operation.seen_perform view sound earlier
    have looked : site ∈ earlier.attributes document :=
      List.mem_flatMap.2 ⟨reference, resolved reference here, looks⟩
    exact new (seen ▸ mem_seenAfter.2 (.inr ⟨site, looked, rfl⟩))
  have later : (resolve document considerTypeof references progress).2.Sound document :=
    Operation.sound_perform view sound earlier
  rw [resolve_eq view later, (Progress.examineAll_eq ..).2, nothingWaits, nothingNew]
  rfl

end Order

/-- **The order of the references does not matter.** From the start, references in any order give
the same findings in some order. To resolve them again, in either order, gives again the findings
about references, and no other. -/
theorem resolve_perm (root : Node) (text : List Char) (registry : Registry) (considerTypeof : Bool)
    {references others : List Occurrence} (perm : references.Perm others) :
    let document : Document := ⟨root.tree, text, registry⟩
    let first := resolve document considerTypeof references .start
    let second := resolve document considerTypeof others .start
    first.1.Perm second.1
      ∧ (resolve document considerTypeof references first.2).1 = first.1.filter Finding.isUnresolved
      ∧ (resolve document considerTypeof others first.2).1
        = second.1.filter Finding.isUnresolved := by
  intro document first second
  have view : document.tree.IsView := root.isView_tree
  have start := Progress.sound_start document
  refine ⟨?_, ?_, ?_⟩
  · simp only [first, second, resolve_eq view start, (Progress.examineAll_eq ..).2]
    exact ((unseen_perm view considerTypeof perm).filterMap _).append ((perm.filter _).map _)
  · rw [filter_isUnresolved_resolve view start]
    exact resolve_again view considerTypeof start fun reference member => member
  · rw [filter_isUnresolved_resolve view start]
    exact resolve_again view considerTypeof start fun reference => perm.mem_iff.2

/-- In `<X as={ this.a }>{ b }{ c }</X>;` the two references give three findings in either
order. -/
theorem resolve_perm_swap : ∃ root,
    Grammar.parse "<X as={ this.a }>{ b }{ c }</X>;" = .ok root
      ∧ let references : List Occurrence :=
          [⟨[⟨.expression, 0⟩, ⟨.children, 0⟩, ⟨.expression, 0⟩, ⟨.body, 0⟩], ⟨⟨19, 20⟩, "b"⟩⟩,
            ⟨[⟨.expression, 0⟩, ⟨.children, 1⟩, ⟨.expression, 0⟩, ⟨.body, 0⟩], ⟨⟨24, 25⟩, "c"⟩⟩]
        let document : Document := ⟨root.tree, [], .empty⟩
        let first := (resolve document false references .start).1
        let second := (resolve document false references.reverse .start).1
        first.length = 3 ∧ first.Perm second := by
  have run : ((Grammar.parse "<X as={ this.a }>{ b }{ c }</X>;").toOption.any fun root =>
      (resolve ⟨root.tree, [], .empty⟩ false
        [⟨[⟨.expression, 0⟩, ⟨.children, 0⟩, ⟨.expression, 0⟩, ⟨.body, 0⟩], ⟨⟨19, 20⟩, "b"⟩⟩,
          ⟨[⟨.expression, 0⟩, ⟨.children, 1⟩, ⟨.expression, 0⟩, ⟨.body, 0⟩], ⟨⟨24, 25⟩, "c"⟩⟩]
        .start).1.length == 3) = true := by
    decide +kernel
  obtain ⟨root, parsed, run⟩ := Grammar.exists_of_any_parse run
  refine ⟨root, parsed, beq_iff_eq.1 run, ?_⟩
  exact (resolve_perm root [] .empty false (List.reverse_perm _).symm).1

end TemplateLint.Template
