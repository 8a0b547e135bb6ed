import Mathlib.Order.Monotone.Basic
import Mathlib.Tactic.Ring

/-!
# Tilings of an interval by consecutive cells

Cells are given by their boundaries, a function on the naturals: cell `c` is the interval from
`bound c` to `bound (c + 1)`.
-/

namespace Tiling

/-- Consecutive cells cover everything between their outer boundaries. -/
theorem exists_cell (bound : ℕ → ℕ) {cells point : ℕ} (low : bound 0 ≤ point)
    (high : point < bound cells) :
    ∃ cell < cells, bound cell ≤ point ∧ point < bound (cell + 1) := by
  induction cells with
  | zero => omega
  | succ cells ih =>
      by_cases last : bound cells ≤ point
      · exact ⟨cells, Nat.lt_succ_self cells, last, high⟩
      · obtain ⟨cell, inside, found⟩ := ih (by omega)
        exact ⟨cell, by omega, found⟩

/-- A point lies in one cell only. -/
theorem cell_unique {bound : ℕ → ℕ} {cells left right point : ℕ}
    (mono : ∀ first second, first ≤ second → second ≤ cells → bound first ≤ bound second)
    (left_lt : left < cells) (right_lt : right < cells) (left_low : bound left ≤ point)
    (left_high : point < bound (left + 1)) (right_low : bound right ≤ point)
    (right_high : point < bound (right + 1)) : left = right := by
  rcases Nat.lt_trichotomy left right with below | same | above
  · have := mono (left + 1) right below right_lt.le
    omega
  · exact same
  · have := mono (right + 1) left above left_lt.le
    omega

/-- A point of a run of `cells` cells of one width lies in the cell of its quotient. -/
theorem exists_cell_of_width {width cells point : ℕ} (inside : point < cells * width) :
    ∃ cell < cells, cell * width ≤ point ∧ point < cell * width + width := by
  have low : 0 * width ≤ point := by omega
  obtain ⟨cell, cell_lt, above, below⟩ := exists_cell (fun cell => cell * width) low inside
  refine ⟨cell, cell_lt, above, ?_⟩
  simp only [Nat.add_mul, Nat.one_mul] at below
  exact below

theorem cell_of_width_unique {width left right point : ℕ} (left_low : left * width ≤ point)
    (left_high : point < left * width + width) (right_low : right * width ≤ point)
    (right_high : point < right * width + width) : left = right := by
  rw [← Nat.succ_mul] at left_high right_high
  rcases Nat.lt_trichotomy left right with below | same | above
  · have := Nat.mul_le_mul_right width below
    omega
  · exact same
  · have := Nat.mul_le_mul_right width above
    omega

/-- Pieces, each given by its first point and its length, that follow one another from `start` to
`stop`; none of them is empty. -/
inductive Span : ℕ → List (ℕ × ℕ) → ℕ → Prop
  | nil (stop : ℕ) : Span stop [] stop
  | cons {start length stop : ℕ} {pieces : List (ℕ × ℕ)} (positive : 0 < length)
      (later : Span (start + length) pieces stop) : Span start ((start, length) :: pieces) stop

theorem Span.append {start middle stop : ℕ} {left right : List (ℕ × ℕ)}
    (before : Span start left middle) (after : Span middle right stop) :
    Span start (left ++ right) stop := by
  induction before with
  | nil middle => exact after
  | cons positive later ih => exact Span.cons positive (ih after)

theorem Span.singleton {start length : ℕ} (positive : 0 < length) :
    Span start [(start, length)] (start + length) :=
  Span.cons positive (Span.nil _)

/-- The pieces that are not empty. -/
def nonempty (pieces : List (ℕ × ℕ)) : List (ℕ × ℕ) :=
  pieces.filter fun piece => 0 < piece.2

@[simp]
theorem nonempty_append (left right : List (ℕ × ℕ)) :
    nonempty (left ++ right) = nonempty left ++ nonempty right :=
  List.filter_append ..

theorem nonempty_singleton (start length : ℕ) :
    nonempty [(start, length)] = if 0 < length then [(start, length)] else [] := by
  unfold nonempty
  split <;> simp_all

theorem Span.bounds {start stop : ℕ} {pieces : List (ℕ × ℕ)} (span : Span start pieces stop)
    {piece : ℕ × ℕ} (member : piece ∈ pieces) :
    start ≤ piece.1 ∧ 0 < piece.2 ∧ piece.1 + piece.2 ≤ stop := by
  have ordered {start stop : ℕ} {pieces : List (ℕ × ℕ)} (span : Span start pieces stop) :
      start ≤ stop := by
    induction span with
    | nil => exact le_rfl
    | cons positive later ih => omega
  induction span with
  | nil => cases member
  | cons positive later ih =>
      rcases List.mem_cons.mp member with rfl | member
      · exact ⟨le_rfl, positive, ordered later⟩
      · have := ih member
        omega

/-- Pieces that follow one another from `start` to `stop`; some may be empty. -/
inductive Chain : ℕ → List (ℕ × ℕ) → ℕ → Prop
  | nil (stop : ℕ) : Chain stop [] stop
  | cons {start length stop : ℕ} {pieces : List (ℕ × ℕ)}
      (later : Chain (start + length) pieces stop) : Chain start ((start, length) :: pieces) stop

/-- Cells with ordered boundaries follow one another. -/
theorem Chain.of_bounds {bound : ℕ → ℕ} {cells : ℕ}
    (mono : ∀ first second, first ≤ second → second ≤ cells → bound first ≤ bound second) :
    Chain (bound 0)
      ((List.range cells).map fun cell => (bound cell, bound (cell + 1) - bound cell))
      (bound cells) := by
  have from_cell (remaining first : ℕ) (fits : first + remaining = cells) :
      Chain (bound first)
        ((List.range' first remaining).map fun cell => (bound cell, bound (cell + 1) - bound cell))
        (bound cells) := by
    induction remaining generalizing first with
    | zero =>
        obtain rfl : first = cells := fits
        exact Chain.nil _
    | succ remaining ih =>
        have ordered := mono first (first + 1) (Nat.le_succ first) (by omega)
        have later := ih (first + 1) (by omega)
        refine Chain.cons ?_
        rwa [Nat.add_sub_cancel' ordered]
  rw [List.range_eq_range']
  exact from_cell cells 0 (Nat.zero_add cells)

end Tiling
