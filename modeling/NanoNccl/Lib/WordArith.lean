import Mathlib.Data.Option.Basic
import Mathlib.Data.Nat.Basic

/-!
# Programs over natural numbers under different arithmetics

A program that only adds, subtracts and multiplies is written once and run exactly, on machine
words that wrap around, or with a check of every result. A run that passes all checks computes the
same as the two others.
-/

namespace WordArith

/-- What an operation makes of its operands; `none` where it gives up. -/
structure Arith where
  add : ℕ → ℕ → Option ℕ
  sub : ℕ → ℕ → Option ℕ
  mul : ℕ → ℕ → Option ℕ

/-- Natural numbers. -/
def exact : Arith where
  add := fun left right => some (left + right)
  sub := fun left right => some (left - right)
  mul := fun left right => some (left * right)

@[simp] theorem exact_add (left right : ℕ) : exact.add left right = some (left + right) := rfl

@[simp] theorem exact_sub (left right : ℕ) : exact.sub left right = some (left - right) := rfl

@[simp] theorem exact_mul (left right : ℕ) : exact.mul left right = some (left * right) := rfl

/-- Machine words below `modulus`. -/
def wrapping (modulus : ℕ) : Arith where
  add := fun left right => some ((left + right) % modulus)
  sub := fun left right => some ((left + (modulus - right % modulus)) % modulus)
  mul := fun left right => some (left * right % modulus)

/-- Natural numbers up to `bound`: a result that is no such number is refused. -/
def checked (bound : ℕ) : Arith where
  add := fun left right => if left + right ≤ bound then some (left + right) else none
  sub := fun left right => if right ≤ left ∧ left ≤ bound then some (left - right) else none
  mul := fun left right => if left * right ≤ bound then some (left * right) else none

/-- The first computation returns what the second one does, or gives up. -/
def Refines {α : Type*} (first second : Option α) : Prop :=
  ∀ value, first = some value → second = some value

theorem Refines.refl {α : Type*} (first : Option α) : Refines first first :=
  fun _ returned => returned

theorem Refines.bind {α β : Type} {first second : Option α} {next later : α → Option β}
    (same : Refines first second) (continues : ∀ value, Refines (next value) (later value)) :
    Refines (first >>= next) (second >>= later) := by
  intro result returned
  obtain ⟨value, found, returned⟩ := Option.bind_eq_some_iff.mp returned
  exact Option.bind_eq_some_iff.mpr ⟨value, same value found, continues value result returned⟩

theorem Refines.mapM {α β : Type} {function other : α → Option β} {items : List α}
    (same : ∀ item, Refines (function item) (other item)) :
    Refines (items.mapM function) (items.mapM other) := by
  induction items with
  | nil => exact .refl _
  | cons item items ih =>
      simp only [List.mapM_cons]
      exact Refines.bind (same item) fun _ => Refines.bind ih fun _ => .refl _

/-- Every operation of one arithmetic refines that of the other. -/
structure Arith.Refines (first second : Arith) : Prop where
  add : ∀ left right, WordArith.Refines (first.add left right) (second.add left right)
  sub : ∀ left right, WordArith.Refines (first.sub left right) (second.sub left right)
  mul : ∀ left right, WordArith.Refines (first.mul left right) (second.mul left right)

theorem checked_refines_exact (bound : ℕ) : (checked bound).Refines exact where
  add := by
    intro left right value returned
    simp only [checked, Option.ite_none_right_eq_some] at returned
    exact returned.2
  sub := by
    intro left right value returned
    simp only [checked, Option.ite_none_right_eq_some] at returned
    exact returned.2
  mul := by
    intro left right value returned
    simp only [checked, Option.ite_none_right_eq_some] at returned
    exact returned.2

theorem checked_refines_wrapping {bound modulus : ℕ} (below : bound < modulus) :
    (checked bound).Refines (wrapping modulus) where
  add := by
    intro left right value returned
    simp only [checked, Option.ite_none_right_eq_some] at returned
    obtain ⟨fits, same⟩ := returned
    rw [← same]
    exact congrArg some (Nat.mod_eq_of_lt (by omega))
  sub := by
    intro left right value returned
    simp only [checked, Option.ite_none_right_eq_some] at returned
    obtain ⟨⟨ordered, fits⟩, same⟩ := returned
    rw [← same]
    refine congrArg some ?_
    rw [Nat.mod_eq_of_lt (show right < modulus by omega),
      show left + (modulus - right) = left - right + modulus by omega, Nat.add_mod_right]
    exact Nat.mod_eq_of_lt (by omega)
  mul := by
    intro left right value returned
    simp only [checked, Option.ite_none_right_eq_some] at returned
    obtain ⟨fits, same⟩ := returned
    rw [← same]
    exact congrArg some (Nat.mod_eq_of_lt (by omega))

/-- A run that passes all checks computes on machine words what it computes exactly. -/
theorem wrapping_eq_exact {α : Type} {program : Arith → Option α} {bound modulus : ℕ}
    (mono : ∀ first second : Arith, first.Refines second → Refines (program first) (program second))
    (below : bound < modulus) (passes : (program (checked bound)).isSome = true) :
    program (wrapping modulus) = program exact := by
  obtain ⟨value, returned⟩ := Option.isSome_iff_exists.mp passes
  rw [mono _ _ (checked_refines_wrapping below) value returned,
    mono _ _ (checked_refines_exact bound) value returned]

theorem mapM_eq_some {α β : Type} {function : α → Option β} {result : α → β} {items : List α}
    (returns : ∀ item ∈ items, function item = some (result item)) :
    items.mapM function = some (items.map result) := by
  induction items with
  | nil => rfl
  | cons item items ih =>
      have first := returns item List.mem_cons_self
      have later := ih fun item member => returns item (List.mem_cons_of_mem _ member)
      simp [List.mapM_cons, first, later]

theorem isSome_mapM_iff {α β : Type} {f : α → Option β} {items : List α} :
    (items.mapM f).isSome = true ↔ ∀ item ∈ items, (f item).isSome = true := by
  induction items with
  | nil => simp
  | cons item items ih =>
      rw [List.mapM_cons, List.forall_mem_cons, ← ih]
      cases f item with
      | none => simp
      | some value => cases items.mapM f <;> simp

section Checked

variable {bound left right : ℕ}

theorem checked_add (fits : left + right ≤ bound) :
    (checked bound).add left right = some (left + right) := if_pos fits

theorem checked_sub (ordered : right ≤ left) (fits : left ≤ bound) :
    (checked bound).sub left right = some (left - right) := if_pos ⟨ordered, fits⟩

theorem checked_mul (fits : left * right ≤ bound) :
    (checked bound).mul left right = some (left * right) := if_pos fits

theorem checked_mul_eq_none (outside : bound < left * right) :
    (checked bound).mul left right = none := if_neg (by omega)

theorem isSome_checked_mul_iff :
    ((checked bound).mul left right).isSome = true ↔ left * right ≤ bound := by
  by_cases fits : left * right ≤ bound
  · simp [checked_mul fits, fits]
  · simp [checked_mul_eq_none (not_le.mp fits), fits]

end Checked

end WordArith
