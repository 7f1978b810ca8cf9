import Mathlib.Data.List.Basic

/-!
# Stable sorting

Merge sort keeps the order of items that are equal to it (`mergeSort_cons_eq`), so **sorting and
leaving items out commute** (`filter_mergeSort`), and **parts may be sorted before the whole is**
(`mergeSort_append_mergeSort`).
-/

namespace TemplateLint

section Sorting

variable {α : Type} {le : α → α → Bool}
  (trans : ∀ a b c, le a b = true → le b c = true → le a c = true)
  (total : ∀ a b, (le a b || le b a) = true)

include trans total in
/-- An item is sorted in before those that need not stand before it. -/
theorem mergeSort_cons_eq (first : α) (rest : List α) :
    (first :: rest).mergeSort le
      = (rest.mergeSort le).filter (fun other => !le first other)
        ++ first :: (rest.mergeSort le).filter (le first) := by
  obtain ⟨before, behind, whole, parts, strictly⟩ := List.mergeSort_cons trans total first rest
  have sorted := List.pairwise_mergeSort trans total (first :: rest)
  rw [whole] at sorted
  rw [whole, parts]
  have follows : ∀ other ∈ behind, le first other = true :=
    (List.pairwise_cons.1 (List.pairwise_append.1 sorted).2.1).1
  have none_before : before.filter (le first) = [] :=
    List.filter_eq_nil_iff.2 fun other member => by simpa using strictly other member
  have none_behind : behind.filter (fun other => !le first other) = [] :=
    List.filter_eq_nil_iff.2 fun other member => by simpa using follows other member
  rw [List.filter_append, List.filter_append, List.filter_eq_self.2 strictly,
    List.filter_eq_self.2 follows, none_before, none_behind, List.append_nil, List.nil_append]

include trans in
theorem filter_append_of_sorted {items : List α}
    (sorted : items.Pairwise fun a b => le a b = true) (item : α) :
    items.filter (fun other => !le item other) ++ items.filter (le item) = items := by
  induction items with
  | nil => rfl
  | cons first rest ih =>
    obtain ⟨firstBefore, sortedRest⟩ := List.pairwise_cons.1 sorted
    by_cases reached : le item first = true
    · have follows : ∀ other ∈ first :: rest, le item other = true := by
        intro other member
        rcases List.mem_cons.1 member with rfl | later
        · exact reached
        · exact trans _ _ _ reached (firstBefore other later)
      have none_before : (first :: rest).filter (fun other => !le item other) = [] :=
        List.filter_eq_nil_iff.2 fun other member => by simpa using follows other member
      rw [none_before, List.filter_eq_self.2 follows, List.nil_append]
    · simp only [List.filter_cons, reached, Bool.not_false, if_true, if_false, List.cons_append,
        ih sortedRest, Bool.false_eq_true]

include trans total in
/-- **Items may be left out before or after sorting.** -/
theorem filter_mergeSort (keeps : α → Bool) (items : List α) :
    (items.mergeSort le).filter keeps = (items.filter keeps).mergeSort le := by
  induction items with
  | nil => simp
  | cons first rest ih =>
    have swap : ∀ other : α → Bool, ((rest.mergeSort le).filter other).filter keeps
        = ((rest.filter keeps).mergeSort le).filter other := by
      intro other
      rw [← ih, List.filter_filter, List.filter_filter]
      exact List.filter_congr fun _ _ => Bool.and_comm _ _
    rw [mergeSort_cons_eq trans total, List.filter_append, List.filter_cons, swap, swap]
    by_cases kept : keeps first = true
    · rw [if_pos kept, List.filter_cons_of_pos kept, mergeSort_cons_eq trans total]
    · rw [if_neg kept, List.filter_cons_of_neg kept]
      exact filter_append_of_sorted trans (List.pairwise_mergeSort trans total _) first

/-! ## Items at one place -/

/-- Neither item has to stand before the other. -/
def alike (le : α → α → Bool) (item other : α) : Bool := le item other && le other item

include total in
theorem alike_self (item : α) : alike le item item = true := by
  have reflexive : le item item = true := by simpa using total item item
  simp [alike, reflexive]

include total in
theorem mem_of_filter_alike {items others : List α}
    (agree : ∀ item, items.filter (alike le item) = others.filter (alike le item)) {item : α}
    (member : item ∈ items) : item ∈ others := by
  have kept := List.mem_filter.2 ⟨member, alike_self total item⟩
  rw [agree item] at kept
  exact (List.mem_filter.1 kept).1

include total in
theorem eq_of_sorted_of_filter {items others : List α}
    (sorted : items.Pairwise fun a b => le a b = true)
    (sortedOthers : others.Pairwise fun a b => le a b = true)
    (agree : ∀ item, items.filter (alike le item) = others.filter (alike le item)) :
    items = others := by
  induction items generalizing others with
  | nil =>
    refine (List.eq_nil_iff_forall_not_mem.2 fun other member => ?_).symm
    exact absurd (mem_of_filter_alike total (fun item => (agree item).symm) member)
      List.not_mem_nil
  | cons first rest ih =>
    have there := mem_of_filter_alike total agree (.head _)
    cases others with
    | nil => cases there
    | cons other later =>
      have here := mem_of_filter_alike total (fun item => (agree item).symm) (.head _)
      obtain ⟨before, sortedRest⟩ := List.pairwise_cons.1 sorted
      obtain ⟨beforeOther, sortedLater⟩ := List.pairwise_cons.1 sortedOthers
      -- Each head comes before all items of its list, and so before the other head.
      have heads : alike le first other = true := by
        rcases List.mem_cons.1 here with rfl | inside
        · exact alike_self total _
        rcases List.mem_cons.1 there with rfl | insideOther
        · exact alike_self total _
        · rw [alike, before _ inside, beforeOther _ insideOther, Bool.and_self]
      obtain rfl : first = other := by
        have same := agree first
        rw [List.filter_cons_of_pos (alike_self total first), List.filter_cons_of_pos heads] at same
        exact (List.cons.inj same).1
      refine congrArg (first :: ·) (ih sortedRest sortedLater fun item => ?_)
      have same := agree item
      rw [List.filter_cons, List.filter_cons] at same
      split at same
      · exact (List.cons.inj same).2
      · exact same

include trans total in
/-- **Parts may be sorted before the whole is.** -/
theorem mergeSort_append_mergeSort (first second : List α) :
    (first.mergeSort le ++ second.mergeSort le).mergeSort le = (first ++ second).mergeSort le := by
  refine eq_of_sorted_of_filter total (List.pairwise_mergeSort trans total _)
    (List.pairwise_mergeSort trans total _) fun item => ?_
  -- Items at one place are in order as they come.
  have still : ∀ items : List α, (items.filter (alike le item)).mergeSort le
      = items.filter (alike le item) := by
    intro items
    refine List.mergeSort_of_pairwise
      (List.Pairwise.imp_of_mem ?_ (List.pairwise_of_forall fun _ _ => trivial))
    intro a b inA inB _
    have alikeA := (List.mem_filter.1 inA).2
    have alikeB := (List.mem_filter.1 inB).2
    rw [alike, Bool.and_eq_true] at alikeA alikeB
    exact trans _ _ _ alikeA.2 alikeB.1
  simp only [filter_mergeSort trans total, List.filter_append, still]

end Sorting

end TemplateLint
