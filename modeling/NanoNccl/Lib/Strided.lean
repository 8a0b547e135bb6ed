import Mathlib.Data.List.Range
import Mathlib.Algebra.Order.Ring.Nat
import Mathlib.Tactic.Ring

/-!
# Strided loops

The values of the index of `for (i = start; i < stop; i += stride)`, and the same loop unrolled:
one iteration of `for (base = start; base < stop; base += stride * unroll)` takes the indices
`base + u * stride` below `stop`.
-/

namespace Strided

/-- The indices of a loop. -/
def indices (start stop stride : ℕ) : List ℕ :=
  (List.range ((stop - start + (stride - 1)) / stride)).map fun k => start + k * stride

/-- The indices one iteration of an unrolled loop takes. -/
def batch (stop stride unroll base : ℕ) : List ℕ :=
  ((List.range unroll).map fun u => base + u * stride).filter (· < stop)

variable {start stop stride : ℕ}

theorem indices_of_le (past : stop ≤ start) : indices start stop stride = [] := by
  unfold indices
  rcases Nat.eq_zero_or_pos stride with rfl | positive
  · simp
  · have none : (stop - start + (stride - 1)) / stride = 0 := by
      rw [Nat.sub_eq_zero_of_le past, Nat.div_eq_of_lt]
      omega
    rw [none]
    rfl

/-- One iteration of the loop. -/
theorem indices_cons (positive : 0 < stride) (inside : start < stop) :
    indices start stop stride = start :: indices (start + stride) stop stride := by
  have count : (stop - start + (stride - 1)) / stride =
      (stop - (start + stride) + (stride - 1)) / stride + 1 := by
    rcases Nat.lt_or_ge (start + stride) stop with more | last
    · have split : stop - start + (stride - 1) =
          stop - (start + stride) + (stride - 1) + stride := by omega
      rw [split, Nat.add_div_right _ positive]
    · have rest : (stop - (start + stride) + (stride - 1)) / stride = 0 := by
        apply Nat.div_eq_of_lt
        omega
      have one : stop - start + (stride - 1) = stop - start - 1 + stride := by omega
      rw [rest, one, Nat.add_div_right _ positive, Nat.div_eq_of_lt (by omega)]
  unfold indices
  rw [count, List.range_succ_eq_map, List.map_cons, List.map_map]
  congr 1
  · omega
  · apply List.map_congr_left
    intro k _
    simp only [Function.comp, Nat.succ_eq_add_one]
    ring

theorem lt_count_iff (positive : 0 < stride) {k : ℕ} :
    k < (stop - start + (stride - 1)) / stride ↔ start + k * stride < stop := by
  rw [← Nat.succ_le_iff, Nat.le_div_iff_mul_le positive, Nat.succ_mul]
  omega

theorem mem_indices (positive : 0 < stride) {i : ℕ} :
    i ∈ indices start stop stride ↔ start ≤ i ∧ i < stop ∧ (i - start) % stride = 0 := by
  simp only [indices, List.mem_map, List.mem_range, lt_count_iff positive]
  constructor
  · rintro ⟨k, inside, rfl⟩
    exact ⟨Nat.le_add_right _ _, inside, by rw [Nat.add_sub_cancel_left, Nat.mul_mod_left]⟩
  · rintro ⟨above, below, whole⟩
    have back : (i - start) / stride * stride = i - start :=
      Nat.div_mul_cancel (Nat.dvd_of_mod_eq_zero whole)
    exact ⟨(i - start) / stride, by omega, by omega⟩

/-- The loop of thread `lane` of `stride` threads takes the indices of its residue class. -/
theorem mem_lane {lane : ℕ} (inside : lane < stride) {i : ℕ} :
    i ∈ indices (start + lane) stop stride ↔
      start ≤ i ∧ i < stop ∧ (i - start) % stride = lane := by
  rw [mem_indices (Nat.zero_lt_of_lt inside)]
  constructor
  · rintro ⟨above, below, whole⟩
    obtain ⟨k, multiple⟩ := Nat.dvd_of_mod_eq_zero whole
    have split : i - start = lane + stride * k := by omega
    exact ⟨by omega, below, by rw [split, Nat.add_mul_mod_self_left, Nat.mod_eq_of_lt inside]⟩
  · rintro ⟨above, below, same⟩
    have split := Nat.mod_add_div (i - start) stride
    rw [same] at split
    have rest : i - (start + lane) = stride * ((i - start) / stride) := by omega
    exact ⟨by omega, below, by rw [rest, Nat.mul_mod_right]⟩

/-- The indices of a loop increase. -/
theorem indices_pairwise (positive : 0 < stride) :
    (indices start stop stride).Pairwise (· < ·) := by
  refine List.Pairwise.map _ ?_ List.pairwise_lt_range
  intro first second below
  exact Nat.add_lt_add_left (Nat.mul_lt_mul_of_pos_right below positive) start

/-- The first iterations of a loop, and the rest of it. -/
theorem indices_eq_batch_append (positive : 0 < stride) (unroll : ℕ) :
    indices start stop stride =
      batch stop stride unroll start ++ indices (start + unroll * stride) stop stride := by
  induction unroll with
  | zero => simp [batch]
  | succ unroll ih =>
      have grown : batch stop stride (unroll + 1) start =
          batch stop stride unroll start ++ [start + unroll * stride].filter (· < stop) := by
        simp only [batch, List.range_succ, List.map_append, List.filter_append, List.map_cons,
          List.map_nil]
      have later : start + (unroll + 1) * stride = start + unroll * stride + stride := by ring
      rw [ih, grown, later, List.append_assoc]
      congr 1
      by_cases inside : start + unroll * stride < stop
      · rw [indices_cons positive inside]
        simp [inside]
      · rw [indices_of_le (by omega), indices_of_le (by omega)]
        simp [inside]

/-- Unrolling does not change which indices a loop takes, nor their order. -/
theorem flatMap_batch (positive : 0 < stride) {unroll : ℕ} (unrolled : 0 < unroll) :
    (indices start stop (stride * unroll)).flatMap (batch stop stride unroll) =
      indices start stop stride := by
  have wide : 0 < stride * unroll := Nat.mul_pos positive unrolled
  induction length : stop - start using Nat.strong_induction_on generalizing start with
  | _ span ih =>
      rcases Nat.lt_or_ge start stop with inside | past
      · have shorter : stop - (start + stride * unroll) < span := by omega
        rw [indices_cons wide inside, List.flatMap_cons, ih _ shorter rfl, Nat.mul_comm stride,
          ← indices_eq_batch_append positive]
      · rw [indices_of_le past, indices_of_le past]
        rfl

end Strided
