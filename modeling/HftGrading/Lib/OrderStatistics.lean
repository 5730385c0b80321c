/- module: HftGrading/Lib/OrderStatistics
   scope: library
   digest: The r-th smallest entry of a list, and how counts by a monotone index find it. -/

import Mathlib.Algebra.BigOperators.Group.Finset.Piecewise
import Mathlib.Data.List.Sort

set_option autoImplicit false
set_option relaxedAutoImplicit false

namespace HftGrading.Lib.OrderStatistics

universe u v

section Counts

variable {α : Type u}

theorem sum_countP (l : List α) (f : α → Nat) (n : Nat) :
    ∑ i ∈ Finset.range n, l.countP (f · = i) = l.countP (f · < n) := by
  induction l with
  | nil => simp
  | cons a l ih => simp [List.countP_cons, Finset.sum_add_distrib, ih]

end Counts

section Ranks

variable {α : Type u} {β : Type v} [LinearOrder α] [LinearOrder β]

/-- The `r`-th smallest entry, counted from one. -/
def smallest (l : List α) (r : Nat) : Option α := l.mergeSort[r - 1]?

theorem getElem_le_iff {l : List α} (sorted : l.Pairwise (· ≤ ·)) {k : Nat} (inside : k < l.length)
    (x : α) : l[k] ≤ x ↔ k < l.countP (· ≤ x) := by
  induction l generalizing k with
  | nil => exact absurd inside (Nat.not_lt_zero k)
  | cons a l ih =>
    obtain ⟨least, sorted⟩ := List.pairwise_cons.mp sorted
    have beyond : ¬ a ≤ x → l.countP (· ≤ x) = 0 := fun above =>
      List.countP_eq_zero.mpr fun b member within =>
        above ((least b member).trans (of_decide_eq_true within))
    rw [List.countP_cons]
    cases k with
    | zero =>
      by_cases below : a ≤ x
      · simp [below]
      · simp [below, beyond below]
    | succ k =>
      rw [List.getElem_cons_succ, ih sorted (Nat.lt_of_succ_lt_succ inside)]
      by_cases below : a ≤ x
      · simp [below]
      · simp [below, beyond below]

theorem exists_smallest (l : List α) {f : α → β} (mono : Monotone f) {r : Nat} (first : 1 ≤ r)
    (last : r ≤ l.length) :
    ∃ v ∈ l, smallest l r = some v ∧ ∀ i, f v ≤ i ↔ r ≤ l.countP (f · ≤ i) := by
  have inside : r - 1 < l.mergeSort.length := by
    rw [List.length_mergeSort]
    omega
  have sorted : (l.mergeSort.map f).Pairwise (· ≤ ·) :=
    List.pairwise_map.mpr (List.sortedLE_mergeSort.pairwise.imp fun le => mono le)
  have perm := List.mergeSort_perm l (fun a b => decide (a ≤ b))
  refine ⟨_, perm.mem_iff.mp (List.getElem_mem inside), List.getElem?_eq_getElem inside,
    fun i => ?_⟩
  have rank := getElem_le_iff sorted (by rwa [List.length_map]) i
  rw [List.getElem_map, List.countP_map, perm.countP_eq] at rank
  rw [rank, Nat.lt_iff_add_one_le, Nat.sub_add_cancel first]
  rfl

end Ranks

end HftGrading.Lib.OrderStatistics
