import Mathlib.Algebra.BigOperators.Group.Finset.Basic
import Mathlib.Algebra.BigOperators.Ring.Finset
import Mathlib.Algebra.Order.BigOperators.Group.Finset
import Mathlib.Data.Fintype.Card

/-!
# Counting over tables

How sums and counts over a table change when one entry of it does.
-/

namespace Counting

variable {ι π : Type*}

/-- A sum of which one term drops. -/
theorem sum_drops [DecidableEq ι] {s : Finset ι} {before after : ι → ℕ} {k : ι} {cost : ℕ}
    (member : k ∈ s)
    (same : ∀ i ∈ s, i ≠ k → after i = before i) (drops : after k + cost ≤ before k) :
    ∑ i ∈ s, after i + cost ≤ ∑ i ∈ s, before i := by
  have others : ∑ i ∈ s.erase k, after i = ∑ i ∈ s.erase k, before i := by
    refine Finset.sum_congr rfl fun i inside => ?_
    exact same i (Finset.mem_of_mem_erase inside) (Finset.ne_of_mem_erase inside)
  rw [← Finset.add_sum_erase s after member, ← Finset.add_sum_erase s before member, others]
  omega

variable [Fintype ι] (P : π → Prop) [DecidablePred P]

/-- Number of entries with a property. -/
def count (table : ι → π) : ℕ := (Finset.univ.filter fun i => P (table i)).card

theorem count_eq_sum (table : ι → π) : count P table = ∑ i, if P (table i) then 1 else 0 :=
  Finset.card_filter _ _

variable {P} {table : ι → π} in
theorem count_eq_zero_iff : count P table = 0 ↔ ∀ i, ¬ P (table i) := by
  simp [count, Finset.filter_eq_empty_iff]

variable {P} {table : ι → π} in
theorem count_pos_iff : 0 < count P table ↔ ∃ i, P (table i) := by
  simp [count, Finset.card_pos, Finset.filter_nonempty_iff]

variable [DecidableEq ι]

/-- One entry changes. -/
theorem count_update (table : ι → π) (i : ι) (entry : π) :
    count P (Function.update table i entry) + (if P (table i) then 1 else 0) =
      count P table + if P entry then 1 else 0 := by
  have others : ∑ j ∈ Finset.univ.erase i, (if P (Function.update table i entry j) then 1 else 0) =
      ∑ j ∈ Finset.univ.erase i, if P (table j) then 1 else 0 := by
    refine Finset.sum_congr rfl fun j inside => ?_
    rw [Function.update_of_ne (Finset.ne_of_mem_erase inside)]
  rw [count_eq_sum, count_eq_sum, ← Finset.add_sum_erase Finset.univ _ (Finset.mem_univ i),
    ← Finset.add_sum_erase Finset.univ (fun j => if P (table j) then 1 else 0) (Finset.mem_univ i),
    others, Function.update_self]
  omega

end Counting
