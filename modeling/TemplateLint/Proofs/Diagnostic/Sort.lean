import TemplateLint.Diagnostic.Basic
import TemplateLint.Proofs.Sorting

/-!
# The order of reports

Problems are sorted by file, line and column. Problems may be left out before or after sorting
(`filter_sort`), and parts may be sorted before the whole (`sort_append_sort`).
-/

namespace TemplateLint

open TemplateLint.Diagnostic

/-! ## Locations -/

namespace Diagnostic.Location

theorem le_iff (a b : Location) :
    a.le b = true ↔ a.file < b.file ∨ a.file = b.file
      ∧ (a.line < b.line ∨ a.line = b.line ∧ a.column ≤ b.column) := by
  unfold le
  by_cases sameFile : a.file = b.file
  · by_cases sameLine : a.line = b.line <;> simp [sameFile, sameLine]
  · simp [sameFile]

theorem le_trans (a b c : Location) (ab : a.le b = true) (bc : b.le c = true) :
    a.le c = true := by
  rw [le_iff] at ab bc ⊢
  rcases ab with ab | ⟨sameAB, ab⟩ <;> rcases bc with bc | ⟨sameBC, bc⟩
  · exact .inl (String.lt_trans ab bc)
  · exact .inl (sameBC ▸ ab)
  · exact .inl (sameAB ▸ bc)
  · exact .inr ⟨sameAB.trans sameBC, by omega⟩

theorem le_total (a b : Location) : (a.le b || b.le a) = true := by
  rw [Bool.or_eq_true, le_iff, le_iff]
  by_cases before : a.file < b.file
  · exact .inl (.inl before)
  by_cases behind : b.file < a.file
  · exact .inr (.inl behind)
  have same : a.file = b.file := String.le_antisymm (String.not_lt.1 behind) (String.not_lt.1 before)
  by_cases lower : a.line < b.line ∨ a.line = b.line ∧ a.column ≤ b.column
  · exact .inl (.inr ⟨same, lower⟩)
  · exact .inr (.inr ⟨same.symm, by omega⟩)

end Diagnostic.Location

/-! ## Sorting -/

namespace Diagnostic

/-- The diagnostics stand in the order of their locations. -/
def Sorted (diagnostics : List Diagnostic) : Prop :=
  diagnostics.Pairwise fun a b => a.location.le b.location = true

theorem sorted_sort (diagnostics : List Diagnostic) : Sorted (sort diagnostics) :=
  List.pairwise_mergeSort (fun a b c => Location.le_trans a.location b.location c.location)
    (fun a b => Location.le_total a.location b.location) diagnostics

theorem sort_of_sorted {diagnostics : List Diagnostic} (sorted : Sorted diagnostics) :
    sort diagnostics = diagnostics :=
  List.mergeSort_of_pairwise sorted

theorem sort_perm (diagnostics : List Diagnostic) : (sort diagnostics).Perm diagnostics :=
  List.mergeSort_perm diagnostics _

theorem mem_sort {diagnostics : List Diagnostic} {diagnostic : Diagnostic} :
    diagnostic ∈ sort diagnostics ↔ diagnostic ∈ diagnostics :=
  (sort_perm diagnostics).mem_iff

theorem Sorted.filter {diagnostics : List Diagnostic} (sorted : Sorted diagnostics)
    (keeps : Diagnostic → Bool) : Sorted (diagnostics.filter keeps) :=
  List.Pairwise.filter keeps sorted

/-- Sorting and leaving diagnostics out commute. -/
theorem filter_sort (keeps : Diagnostic → Bool) (diagnostics : List Diagnostic) :
    (sort diagnostics).filter keeps = sort (diagnostics.filter keeps) :=
  filter_mergeSort (fun a b c => Location.le_trans a.location b.location c.location)
    (fun a b => Location.le_total a.location b.location) keeps diagnostics

/-- Sorted parts may be put together and sorted again. -/
theorem sort_append_sort (first second : List Diagnostic) :
    sort (sort first ++ sort second) = sort (first ++ second) :=
  mergeSort_append_mergeSort (fun a b c => Location.le_trans a.location b.location c.location)
    (fun a b => Location.le_total a.location b.location) first second

theorem sort_sort_append (first second : List Diagnostic) :
    sort (sort first ++ second) = sort (first ++ second) := by
  rw [← sort_append_sort, sort_of_sorted (sorted_sort first), sort_append_sort]

theorem sort_append_sort_right (first second : List Diagnostic) :
    sort (first ++ sort second) = sort (first ++ second) := by
  rw [← sort_append_sort, sort_of_sorted (sorted_sort second), sort_append_sort]

end Diagnostic

end TemplateLint
