import TemplateLint.Proofs.Template.Attributes

/-!
# Looking at attributes once

The names kept for the attributes looked at so far are the names that the attributes have
(`Progress.Sound`). An answer for a reference is therefore the same at every time
(`isResolved_eq`). What has been looked at decides only which findings about attributes are still to
come: those about attributes at places not seen before, in the order in which they are first looked
at (`Progress.examineAll_eq`).
-/

namespace TemplateLint.Template

open TemplateLint.Syntax TemplateLint.Scope

/-! ## New attributes -/

/-- Those of some attributes that are at places not seen before, each place once. -/
def unseen : List Path → List BindingAttribute → List BindingAttribute
  | _, [] => []
  | seen, site :: rest =>
    if site.place ∈ seen then unseen seen rest else site :: unseen (site.place :: seen) rest

section Unseen

variable {seen : List Path} {sites : List BindingAttribute}

/-- The attributes that have been seen after a look at some more. -/
def seenAfter (seen : List Path) (sites : List BindingAttribute) : List Path :=
  ((unseen seen sites).map BindingAttribute.place).reverse ++ seen

theorem seenAfter_cons (seen : List Path) (site : BindingAttribute)
    (rest : List BindingAttribute) :
    seenAfter seen (site :: rest)
      = seenAfter (if site.place ∈ seen then seen else site.place :: seen) rest := by
  by_cases known : site.place ∈ seen <;> simp [seenAfter, unseen, known]

theorem mem_seenAfter {place : Path} :
    place ∈ seenAfter seen sites ↔ place ∈ seen ∨ ∃ site ∈ sites, site.place = place := by
  induction sites generalizing seen with
  | nil => simp [seenAfter, unseen]
  | cons site rest ih =>
    rw [seenAfter_cons, ih]
    simp only [List.mem_cons, exists_eq_or_imp]
    by_cases known : site.place ∈ seen
    · rw [if_pos known]
      constructor
      · rintro (before | later)
        · exact .inl before
        · exact .inr (.inr later)
      · rintro (before | rfl | later)
        · exact .inl before
        · exact .inl known
        · exact .inr later
    · rw [if_neg known, List.mem_cons, or_assoc, eq_comm]
      exact or_left_comm

theorem unseen_append (first second : List BindingAttribute) :
    unseen seen (first ++ second) = unseen seen first ++ unseen (seenAfter seen first) second := by
  induction first generalizing seen with
  | nil => rfl
  | cons site rest ih =>
    rw [seenAfter_cons]
    by_cases known : site.place ∈ seen <;> simp [unseen, known, ih]

theorem seenAfter_append (first second : List BindingAttribute) :
    seenAfter seen (first ++ second) = seenAfter (seenAfter seen first) second := by
  induction first generalizing seen with
  | nil => rfl
  | cons site rest ih => rw [List.cons_append, seenAfter_cons, seenAfter_cons, ih]

theorem mem_unseen_imp {site : BindingAttribute} (member : site ∈ unseen seen sites) :
    site ∈ sites ∧ site.place ∉ seen := by
  induction sites generalizing seen with
  | nil => cases member
  | cons first rest ih =>
    by_cases known : first.place ∈ seen
    · simp only [unseen, known, if_true] at member
      obtain ⟨listed, fresh⟩ := ih member
      exact ⟨.tail _ listed, fresh⟩
    · simp only [unseen, known, if_false, List.mem_cons] at member
      rcases member with rfl | later
      · exact ⟨.head _, known⟩
      · obtain ⟨listed, fresh⟩ := ih later
        exact ⟨.tail _ listed, fun before => fresh (.tail _ before)⟩

theorem nodup_unseen (seen : List Path) (sites : List BindingAttribute) :
    ((unseen seen sites).map BindingAttribute.place).Nodup := by
  induction sites generalizing seen with
  | nil => exact List.nodup_nil
  | cons first rest ih =>
    by_cases known : first.place ∈ seen
    · simpa only [unseen, known, if_true] using ih seen
    · simp only [unseen, known, if_false, List.map_cons]
      refine List.nodup_cons.2 ⟨fun again => ?_, ih _⟩
      obtain ⟨site, member, same⟩ := List.mem_map.1 again
      exact (mem_unseen_imp member).2 (same ▸ List.mem_cons_self)

theorem mem_unseen_iff
    (settled : ∀ site ∈ sites, ∀ other ∈ sites, site.place = other.place → site = other)
    (site : BindingAttribute) :
    site ∈ unseen seen sites ↔ site ∈ sites ∧ site.place ∉ seen := by
  refine ⟨mem_unseen_imp, ?_⟩
  rintro ⟨listed, fresh⟩
  have after : site.place ∈ seenAfter seen sites := mem_seenAfter.2 (.inr ⟨site, listed, rfl⟩)
  rw [seenAfter, List.mem_append, List.mem_reverse, List.mem_map] at after
  obtain ⟨other, member, same⟩ := after.resolve_right fresh
  obtain rfl := settled other (mem_unseen_imp member).1 site listed same
  exact member

end Unseen

/-! ## Progress -/

namespace Finding

def isUnresolved : Finding → Bool
  | .invalidBinding .. => false
  | .unresolved _ => true

def site? : Finding → Option BindingAttribute
  | .invalidBinding site _ => some site
  | .unresolved _ => none

end Finding

namespace Progress

def seen (progress : Progress) : List Path := progress.known.map Prod.fst

theorem lookup_eq_none_iff (progress : Progress) (place : Path) :
    progress.known.lookup place = none ↔ place ∉ progress.seen := by
  rw [List.lookup_eq_none_iff, seen, List.mem_map]
  constructor
  · rintro differ ⟨entry, member, rfl⟩
    simpa using differ entry member
  · intro fresh entry member
    simpa using fun same => fresh ⟨entry, member, same.symm⟩

/-- What is known is right: names are kept for attributes of the document and are theirs, and
the findings that wait are about attributes without names. -/
structure Sound (document : Document) (progress : Progress) : Prop where
  names : ∀ place names, progress.known.lookup place = some names →
    ∃ site ∈ documentAttributes document.tree, site.place = place ∧ site.names? = names
  faults : ∀ finding ∈ progress.pending, ∃ site, fault? document site = some finding

theorem sound_start (document : Document) : start.Sound document where
  names := by
    intro place names found
    cases found
  faults := by
    intro finding member
    cases member

section Examine

variable {document : Document} {progress : Progress}

/-- Looking at an attribute changes nothing if it has been looked at before, and else adds its
names and what is wrong with them. -/
theorem examine_snd (site : BindingAttribute) :
    (progress.examine document site).2
      = if site.place ∈ progress.seen then progress
        else ⟨(site.place, site.names?) :: progress.known,
          progress.pending ++ (fault? document site).toList⟩ := by
  unfold examine
  by_cases known : site.place ∈ progress.seen
  · have found := mt (lookup_eq_none_iff progress site.place).1 (not_not_intro known)
    obtain ⟨names, found⟩ := Option.ne_none_iff_exists'.1 found
    simp [found, known]
  · rw [(lookup_eq_none_iff progress site.place).2 known, if_neg known]

variable (view : document.tree.IsView) (sound : progress.Sound document)

include view sound

/-- **What is found for an attribute is the same at every time.** -/
theorem examine_fst {site : BindingAttribute} (listed : site ∈ documentAttributes document.tree) :
    (progress.examine document site).1 = site.names? := by
  unfold examine
  cases found : progress.known.lookup site.place with
  | none => rfl
  | some names =>
    obtain ⟨other, member, place, rfl⟩ := sound.names _ _ found
    rw [eq_of_place_eq view member listed place]

omit view in
theorem Sound.examine {site : BindingAttribute}
    (listed : site ∈ documentAttributes document.tree) :
    (progress.examine document site).2.Sound document := by
  rw [examine_snd]
  split
  · exact sound
  · constructor
    · intro place names found
      rw [List.lookup_cons] at found
      by_cases same : place = site.place
      · simp only [same, beq_self_eq_true, Option.some.injEq] at found
        exact ⟨site, listed, same.symm, found⟩
      · simp only [beq_eq_false_iff_ne.2 same] at found
        exact sound.names place names found
    · intro finding member
      rcases List.mem_append.1 member with before | new
      · exact sound.faults finding before
      · exact ⟨site, Option.mem_toList.1 new⟩

omit view in
theorem Sound.examineAll {sites : List BindingAttribute}
    (listed : ∀ site ∈ sites, site ∈ documentAttributes document.tree) :
    (progress.examineAll document sites).Sound document := by
  induction sites generalizing progress with
  | nil => exact sound
  | cons site rest ih =>
    obtain ⟨first, others⟩ := List.forall_mem_cons.1 listed
    exact ih (sound.examine first) others

end Examine

/-- **Looking at attributes adds the faults of the new ones.** -/
theorem examineAll_eq (document : Document) (progress : Progress)
    (sites : List BindingAttribute) :
    (progress.examineAll document sites).seen = seenAfter progress.seen sites
      ∧ (progress.examineAll document sites).pending
        = progress.pending ++ (unseen progress.seen sites).filterMap (fault? document) := by
  induction sites generalizing progress with
  | nil => simp [examineAll, seenAfter, unseen]
  | cons site rest ih =>
    obtain ⟨seenLater, pendingLater⟩ := ih (progress.examine document site).2
    rw [examineAll, List.foldl_cons, ← examineAll, seenLater, pendingLater, examine_snd,
      seenAfter_cons, unseen]
    by_cases known : site.place ∈ progress.seen
    · simp [known]
    · have seenNext : Progress.seen ⟨(site.place, site.names?) :: progress.known,
          progress.pending ++ (fault? document site).toList⟩ = site.place :: progress.seen := rfl
      rw [if_neg known, if_neg known, if_neg known, seenNext, List.filterMap_cons]
      cases fault? document site <;> simp

theorem examineAll_append (document : Document) (progress : Progress)
    (first second : List BindingAttribute) :
    progress.examineAll document (first ++ second)
      = (progress.examineAll document first).examineAll document second :=
  List.foldl_append

end Progress

/-! ## References -/

/-- The items up to and including the first with a property. -/
def takeThrough {α : Type} (property : α → Bool) : List α → List α
  | [] => []
  | item :: rest => if property item then [item] else item :: takeThrough property rest

theorem mem_takeThrough_iff {α : Type} (property : α → Bool) (items : List α) (item : α) :
    item ∈ takeThrough property items
      ↔ ∃ before after, items = before ++ item :: after
        ∧ ∀ other ∈ before, property other = false := by
  induction items with
  | nil => simp [takeThrough]
  | cons first rest ih =>
    constructor
    · intro member
      by_cases last : property first = true
      · simp only [takeThrough, last, if_true, List.mem_singleton] at member
        subst member
        exact ⟨[], rest, rfl, by simp⟩
      · rw [takeThrough, if_neg last, List.mem_cons] at member
        rcases member with rfl | later
        · exact ⟨[], rest, rfl, by simp⟩
        · obtain ⟨before, after, rfl, none⟩ := ih.1 later
          refine ⟨first :: before, after, rfl, ?_⟩
          exact List.forall_mem_cons.2 ⟨Bool.eq_false_iff.2 last, none⟩
    · rintro ⟨before, after, split, none⟩
      cases before with
      | nil =>
        obtain ⟨rfl, _⟩ := List.cons.inj split
        by_cases last : property first = true <;> simp [takeThrough, last]
      | cons other before =>
        obtain ⟨rfl, rfl⟩ := List.cons.inj split
        obtain ⟨passed, none⟩ := List.forall_mem_cons.1 none
        simp only [takeThrough, passed, Bool.false_eq_true, if_false, List.mem_cons]
        exact .inr (ih.2 ⟨before, after, rfl, none⟩)

/-- The attributes that a reference is looked up in, up to the one that binds it. -/
def consulted (document : Document) (considerTypeof : Bool) (reference : Occurrence) :
    List BindingAttribute :=
  if isExempt document considerTypeof reference then []
  else takeThrough (·.binds reference.id.name) (enclosingAttributes document.tree reference.place)

section Resolution

variable {document : Document} (view : document.tree.IsView)

include view

theorem mem_documentAttributes_of_consulted {considerTypeof : Bool} {reference : Occurrence}
    {site : BindingAttribute} (member : site ∈ consulted document considerTypeof reference) :
    site ∈ documentAttributes document.tree := by
  unfold consulted at member
  split at member
  · cases member
  · obtain ⟨before, after, split, _⟩ := (mem_takeThrough_iff ..).1 member
    have inside : site ∈ enclosingAttributes document.tree reference.place := by
      rw [split]
      exact List.mem_append.2 (.inr (.head _))
    exact mem_documentAttributes_of_enclosing view inside

variable {progress : Progress} (sound : progress.Sound document)

include sound

theorem findBinding_eq (name : String) {sites : List BindingAttribute}
    (listed : ∀ site ∈ sites, site ∈ documentAttributes document.tree) :
    findBinding document name sites progress
      = (sites.any (·.binds name),
        progress.examineAll document (takeThrough (·.binds name) sites)) := by
  induction sites generalizing progress with
  | nil => rfl
  | cons site rest ih =>
    obtain ⟨first, others⟩ := List.forall_mem_cons.1 listed
    have answer : ((progress.examine document site).1.any fun names =>
        (BoundNames.ofForm site.form names).binds name) = site.binds name := by
      rw [Progress.examine_fst view sound first, BindingAttribute.binds, BindingAttribute.bound?,
        Option.any_map]
    have further := ih (sound.examine first) others
    simp only [findBinding, answer, List.any_cons]
    by_cases binds : site.binds name = true
    · simp [binds, takeThrough, Progress.examineAll]
    · simp [binds, takeThrough, further, Progress.examineAll]

/-- **A reference is in order exactly if it is not undefined, whatever was asked before.** -/
theorem isResolved_eq (considerTypeof : Bool) (reference : Occurrence) :
    isResolved document considerTypeof reference progress
      = (!decide (Undefined document considerTypeof reference),
        progress.examineAll document (consulted document considerTypeof reference)) := by
  have answer : (!decide (Undefined document considerTypeof reference))
      = (isExempt document considerTypeof reference
        || (enclosingAttributes document.tree reference.place).any
          (·.binds reference.id.name)) := by
    rw [Bool.eq_iff_iff, Bool.not_eq_true', decide_eq_false_iff_not, ← undefined_iff,
      Bool.not_eq_false]
  rw [answer, isResolved, consulted]
  cases isExempt document considerTypeof reference with
  | true => rfl
  | false =>
    exact findBinding_eq view sound _ fun site => mem_documentAttributes_of_enclosing view

theorem areResolved_eq (considerTypeof : Bool) (references : List Occurrence) :
    areResolved document considerTypeof references progress
      = (references.map fun reference => !decide (Undefined document considerTypeof reference),
        progress.examineAll document
          (references.flatMap (consulted document considerTypeof))) := by
  induction references generalizing progress with
  | nil => rfl
  | cons reference rest ih =>
    have listed : ∀ site ∈ consulted document considerTypeof reference,
        site ∈ documentAttributes document.tree :=
      fun site => mem_documentAttributes_of_consulted view
    have further := ih (sound.examineAll listed)
    rw [areResolved, isResolved_eq view sound]
    simp only [further, List.map_cons, List.flatMap_cons, Progress.examineAll_append]

/-- **The findings of a resolution**: those about attributes that were due or are new, and one
for each undefined reference. -/
theorem resolve_eq (considerTypeof : Bool) (references : List Occurrence) :
    resolve document considerTypeof references progress
      = ((progress.examineAll document
            (references.flatMap (consulted document considerTypeof))).pending
          ++ (references.filter fun reference => Undefined document considerTypeof reference).map
            fun reference => .unresolved reference.id,
        ⟨(progress.examineAll document
            (references.flatMap (consulted document considerTypeof))).known, []⟩) := by
  have undefinedOf : ∀ references : List Occurrence,
      ((references.zip (references.map fun reference =>
          !decide (Undefined document considerTypeof reference))).filterMap fun answered =>
            if answered.2 then none else some (Finding.unresolved answered.1.id))
        = (references.filter fun reference => Undefined document considerTypeof reference).map
          fun reference => .unresolved reference.id := by
    intro references
    induction references with
    | nil => rfl
    | cons reference rest ih =>
      by_cases undefined : Undefined document considerTypeof reference
      · simpa [undefined] using ih
      · simpa [undefined] using ih
  rw [resolve, areResolved_eq view sound]
  exact congrArg (fun found => (_ ++ found, _)) (undefinedOf references)

end Resolution

end TemplateLint.Template
