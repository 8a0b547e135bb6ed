import Mathlib.Data.Nat.Basic

/-!
# Places in allocations

An address is an allocation with a byte offset into it. Items of one width at distinct indices of
one array, or in distinct allocations, share no byte.
-/

namespace Placement

/-- An address. -/
structure Pointer (β : Type*) where
  block : β
  /-- Bytes from the start of the allocation. -/
  offset : ℕ
  deriving DecidableEq, Repr

/-- `pointer + index` for a pointer to items of `width` bytes. -/
def Pointer.index {β : Type*} (pointer : Pointer β) (width index : ℕ) : Pointer β :=
  ⟨pointer.block, pointer.offset + index * width⟩

theorem Pointer.index_index {β : Type*} (pointer : Pointer β) (width first second : ℕ) :
    (pointer.index width first).index width second = pointer.index width (first + second) := by
  simp only [Pointer.index, Nat.add_mul, Nat.add_assoc]

/-- The bytes of an item. -/
structure Extent (β : Type*) where
  start : Pointer β
  length : ℕ
  deriving DecidableEq, Repr

variable {β ι : Type*}

/-- No byte lies in both items. -/
def Extent.Apart (left right : Extent β) : Prop :=
  left.start.block = right.start.block →
    left.start.offset + left.length ≤ right.start.offset ∨
      right.start.offset + right.length ≤ left.start.offset

/-- The item lies in an allocation of the given size. -/
def Extent.Inside (size : β → ℕ) (extent : Extent β) : Prop :=
  extent.start.offset + extent.length ≤ size extent.start.block

/-- Distinct items of a family share no byte, and all of them lie in their allocations. -/
structure Placed (size : β → ℕ) (place : ι → Option (Extent β)) : Prop where
  apart : ∀ left right, left ≠ right → ∀ first ∈ place left, ∀ second ∈ place right,
    first.Apart second
  inside : ∀ item, ∀ extent ∈ place item, extent.Inside size

/-- Slots of one width of an array. -/
theorem Extent.apart_of_ne (start : Pointer β) (width : ℕ) {left right : ℕ}
    (distinct : left ≠ right) :
    Extent.Apart ⟨start.index width left, width⟩ ⟨start.index width right, width⟩ := by
  intro _
  simp only [Pointer.index]
  rcases Nat.lt_or_gt_of_ne distinct with below | above
  · have := Nat.mul_le_mul_right width (Nat.succ_le_of_lt below)
    rw [Nat.succ_mul] at this
    omega
  · have := Nat.mul_le_mul_right width (Nat.succ_le_of_lt above)
    rw [Nat.succ_mul] at this
    omega

/-- Items numbered injectively within each allocation are placed. -/
theorem Placed.of_slots {size : β → ℕ} {place : ι → Option (Extent β)} (width : ℕ)
    (block : ι → β) (slot : ι → ℕ)
    (place_eq : ∀ item, ∀ extent ∈ place item,
      extent = ⟨Pointer.index ⟨block item, 0⟩ width (slot item), width⟩)
    (injective : ∀ left right, block left = block right → slot left = slot right → left = right)
    (bounded : ∀ item, (slot item + 1) * width ≤ size (block item)) : Placed size place where
  apart := by
    intro left right distinct first first_mem second second_mem
    rw [place_eq left first first_mem, place_eq right second second_mem]
    intro same
    have same : block left = block right := same
    have slots : slot left ≠ slot right := fun slots => distinct (injective left right same slots)
    rw [← same]
    exact Extent.apart_of_ne _ width slots rfl
  inside := by
    intro item extent member
    have fits := bounded item
    rw [place_eq item extent member]
    rw [Nat.succ_mul] at fits
    simpa [Extent.Inside, Pointer.index] using fits

/-- Row and column are read off an index in a table. -/
theorem row_column_unique {columns row row' column column' : ℕ} (column_lt : column < columns)
    (column_lt' : column' < columns) (same : row * columns + column = row' * columns + column') :
    row = row' ∧ column = column' := by
  have columns_eq : column = column' := by
    rw [← Nat.mul_add_mod_of_lt column_lt, ← Nat.mul_add_mod_of_lt column_lt', same]
  subst columns_eq
  exact ⟨Nat.eq_of_mul_eq_mul_right (by omega) (Nat.add_right_cancel same), rfl⟩

/-- The index of an entry lies in the table. -/
theorem row_column_lt {rows columns row column : ℕ} (row_lt : row < rows)
    (column_lt : column < columns) : row * columns + column < rows * columns := by
  have whole := Nat.mul_le_mul_right columns (Nat.succ_le_of_lt row_lt)
  rw [Nat.succ_mul] at whole
  omega

end Placement
