import Mathlib.Data.List.Basic
import Mathlib.Data.List.Induction
/-!
# MessageExport.Proofs.Distinct

The **distinct elements** of a list, in the order in which they first come.
-/

namespace MessageExport

variable {α : Type} [BEq α] [LawfulBEq α] {a : α} {as : List α}

/-- An element that came before does not count again. -/
theorem eraseDups_concat_of_mem (h : a ∈ as) : (as ++ [a]).eraseDups = as.eraseDups := by
  have hnone : [a].removeAll as = [] := by
    rw [List.removeAll, List.filter_singleton, List.elem_eq_true_of_mem h]
    rfl
  rw [List.eraseDups_append, hnone, List.eraseDups_nil, List.append_nil]

/-- An element that comes for the first time stands at the end. -/
theorem eraseDups_concat_of_not_mem (h : a ∉ as) :
    (as ++ [a]).eraseDups = as.eraseDups ++ [a] := by
  have hnew : [a].removeAll as = [a] := by
    have helem : as.elem a = false := Bool.eq_false_iff.mpr (mt List.mem_of_elem_eq_true h)
    rw [List.removeAll, List.filter_singleton, helem]
    rfl
  rw [List.eraseDups_append, hnew]
  rfl

/-- The distinct elements among some are the distinct elements that are among those. -/
theorem eraseDups_filter (p : α → Bool) (as : List α) :
    (as.filter p).eraseDups = as.eraseDups.filter p := by
  induction as using List.reverseRecOn with
  | nil => rfl
  | append_singleton as a ih =>
      rw [List.filter_append, List.filter_singleton]
      by_cases hmem : a ∈ as
      · rw [eraseDups_concat_of_mem hmem]
        cases hp : p a with
        | false => rw [cond_false, List.append_nil, ih]
        | true =>
            rw [cond_true, eraseDups_concat_of_mem (List.mem_filter.mpr ⟨hmem, hp⟩), ih]
      · rw [eraseDups_concat_of_not_mem hmem, List.filter_append, List.filter_singleton]
        cases hp : p a with
        | false => rw [cond_false, List.append_nil, List.append_nil, ih]
        | true =>
            have hnew : a ∉ as.filter p := fun h => hmem (List.mem_filter.mp h).1
            rw [cond_true, eraseDups_concat_of_not_mem hnew, ih]

end MessageExport
