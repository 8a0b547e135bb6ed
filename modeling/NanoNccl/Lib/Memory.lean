import Mathlib.Data.Nat.ModEq
import Mathlib.Order.Interval.Finset.Nat
import Mathlib.Tactic.Ring

/-!
# Flat memories cut into equal slots

A memory is a function on addresses. A block copy overwrites one interval; a ring of slots of a
common width keeps copies into different slots apart, and steps of one ring period fall into
different slots.
-/

namespace Memory

variable {α : Type*}

/-- Overwrite the `len` cells from `off` on with the values of `value`. -/
def overwrite (mem : ℕ → α) (off len : ℕ) (value : ℕ → α) : ℕ → α :=
  fun j => if off ≤ j ∧ j < off + len then value (j - off) else mem j

theorem overwrite_inside (mem : ℕ → α) (off len : ℕ) (value : ℕ → α) {i : ℕ} (inside : i < len) :
    overwrite mem off len value (off + i) = value i := by
  simp [overwrite, inside]

theorem overwrite_outside (mem : ℕ → α) (off len : ℕ) (value : ℕ → α) {j : ℕ}
    (outside : j < off ∨ off + len ≤ j) : overwrite mem off len value j = mem j := by
  unfold overwrite
  rw [if_neg]
  omega

/-- Cells of a slot do not reach into another slot. -/
theorem slot_apart {width left right : ℕ} (distinct : left ≠ right) {len i : ℕ}
    (fits : len ≤ width) (inside : i < width) :
    right * width + i < left * width ∨ left * width + len ≤ right * width + i := by
  rcases Nat.lt_or_gt_of_ne distinct with below | above
  · right
    have whole : (left + 1) * width ≤ right * width := Nat.mul_le_mul_right width below
    have unfolded : (left + 1) * width = left * width + width := by ring
    omega
  · left
    have whole : (right + 1) * width ≤ left * width := Nat.mul_le_mul_right width above
    have unfolded : (right + 1) * width = right * width + width := by ring
    omega

/-- A copy into one slot leaves every other slot unchanged. -/
theorem overwrite_other_slot (mem : ℕ → α) {width left right : ℕ} (distinct : left ≠ right)
    {len : ℕ} (fits : len ≤ width) (value : ℕ → α) {i : ℕ} (inside : i < width) :
    overwrite mem (left * width) len value (right * width + i) = mem (right * width + i) :=
  overwrite_outside mem _ _ value (slot_apart distinct fits inside)

/-- Data of one slot does not reach into data that starts inside another. -/
theorem slots_apart (data : ℕ) {width left right : ℕ} (distinct : left ≠ right)
    {first offset second : ℕ} (first_fits : first ≤ width) (second_fits : offset + second ≤ width) :
    (data + left * width) + first ≤ data + right * width + offset ∨
      (data + right * width + offset) + second ≤ data + left * width := by
  rcases Nat.lt_or_gt_of_ne distinct with below | above
  · left
    have whole := Nat.mul_le_mul_right width (Nat.succ_le_of_lt below)
    rw [Nat.succ_mul] at whole
    omega
  · right
    have whole := Nat.mul_le_mul_right width (Nat.succ_le_of_lt above)
    rw [Nat.succ_mul] at whole
    omega

/-- Two steps less than one period apart occupy different slots. -/
theorem mod_ne_of_window (low : ℕ) {period first second : ℕ} (distinct : first ≠ second)
    (first_low : low ≤ first) (first_high : first < low + period)
    (second_low : low ≤ second) (second_high : second < low + period) :
    first % period ≠ second % period := by
  intro same
  apply distinct
  apply Nat.mod_injOn_Ico low period
  · simp only [Finset.coe_Ico, Set.mem_Ico]
    exact ⟨first_low, first_high⟩
  · simp only [Finset.coe_Ico, Set.mem_Ico]
    exact ⟨second_low, second_high⟩
  · exact same

/-- The `len` cells from `off` on. -/
def block (mem : ℕ → α) (off len : ℕ) : List α :=
  (List.range len).map fun i => mem (off + i)

/-- Overwrite the cells from `off` on with a list of values. -/
def writeBlock (mem : ℕ → α) (off : ℕ) (values : List α) : ℕ → α :=
  fun j => if off ≤ j then (values[j - off]?).getD (mem j) else mem j

@[simp] theorem length_block (mem : ℕ → α) (off len : ℕ) : (block mem off len).length = len := by
  simp [block]

@[simp] theorem block_zero (mem : ℕ → α) (off : ℕ) : block mem off 0 = [] := rfl

/-- A block reads back the list last written over it. -/
theorem block_writeBlock (mem : ℕ → α) (off : ℕ) (values : List α) :
    block (writeBlock mem off values) off values.length = values := by
  apply List.ext_getElem
  · simp
  · intro i inside _
    have short : i < values.length := by simpa using inside
    simp [block, writeBlock, short]

/-- A block that the written cells do not meet is unchanged. -/
theorem block_writeBlock_apart (mem : ℕ → α) {off len other : ℕ} (values : List α)
    (apart : other + len ≤ off ∨ off + values.length ≤ other) :
    block (writeBlock mem off values) other len = block mem other len := by
  unfold block
  apply List.map_congr_left
  intro i inside
  rw [List.mem_range] at inside
  unfold writeBlock
  by_cases above : off ≤ other + i
  · have past : values.length ≤ other + i - off := by omega
    rw [if_pos above, List.getElem?_eq_none past, Option.getD_none]
  · rw [if_neg above]

/-- Only the written cells change. -/
theorem inside_of_writeBlock_ne {mem : ℕ → α} {off j : ℕ} {values : List α}
    (changed : writeBlock mem off values j ≠ mem j) : off ≤ j ∧ j < off + values.length := by
  unfold writeBlock at changed
  by_cases above : off ≤ j
  · refine ⟨above, ?_⟩
    by_contra past
    rw [if_pos above, List.getElem?_eq_none (by omega), Option.getD_none] at changed
    exact changed rfl
  · rw [if_neg above] at changed
    exact absurd rfl changed

@[simp] theorem writeBlock_nil (mem : ℕ → α) (off : ℕ) : writeBlock mem off [] = mem := by
  funext j
  simp [writeBlock]

/-- Two adjacent writes are one. -/
theorem writeBlock_writeBlock (mem : ℕ → α) (off : ℕ) (first second : List α) :
    writeBlock (writeBlock mem off first) (off + first.length) second =
      writeBlock mem off (first ++ second) := by
  funext j
  unfold writeBlock
  by_cases above : off ≤ j
  · by_cases inside : j - off < first.length
    · have below : ¬off + first.length ≤ j := by omega
      rw [if_neg below, if_pos above, if_pos above, List.getElem?_append_left inside]
    · have past : off + first.length ≤ j := by omega
      have rest : j - off - first.length = j - (off + first.length) := by omega
      rw [if_pos past, if_pos above, if_pos above, List.getElem?_append_right (by omega), rest,
        List.getElem?_eq_none (show first.length ≤ j - off by omega), Option.getD_none]
  · have below : ¬off + first.length ≤ j := by omega
    rw [if_neg below, if_neg above, if_neg above]

theorem block_append (mem : ℕ → α) (off first second : ℕ) :
    block mem off (first + second) = block mem off first ++ block mem (off + first) second := by
  simp [block, List.range_add, Nat.add_assoc]

theorem drop_block (mem : ℕ → α) (off len count : ℕ) :
    (block mem off len).drop count = block mem (off + count) (len - count) := by
  rcases Nat.le_total count len with inside | outside
  · obtain ⟨rest, rfl⟩ := Nat.exists_eq_add_of_le inside
    rw [block_append, List.drop_left' (length_block mem off count), Nat.add_sub_cancel_left]
  · rw [Nat.sub_eq_zero_of_le outside, List.drop_eq_nil_of_le (by simpa using outside)]
    rfl

end Memory
