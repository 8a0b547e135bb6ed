import Mathlib.Data.List.Basic

/-!
# Consecutively numbered queues

A queue whose entries answer to consecutive numbers: the entry at position `i` of a queue numbered
from `first` meets a predicate at `first + i`. Entries join at the back and leave at the front.
-/

namespace Queue

variable {α : Type*} {P Q : ℕ → α → Prop}

/-- The entries of the queue meet `P` at consecutive numbers, starting at `first`. -/
def Numbered (P : ℕ → α → Prop) : ℕ → List α → Prop
  | _, [] => True
  | first, entry :: rest => P first entry ∧ Numbered P (first + 1) rest

theorem Numbered.mono (weaken : ∀ k entry, P k entry → Q k entry) {first : ℕ} {entries : List α}
    (numbered : Numbered P first entries) : Numbered Q first entries := by
  induction entries generalizing first with
  | nil => trivial
  | cons entry rest ih => exact ⟨weaken first entry numbered.1, ih numbered.2⟩

/-- An entry joins at the back. -/
theorem Numbered.concat {first : ℕ} {entries : List α} (numbered : Numbered P first entries)
    {entry : α} (last : P (first + entries.length) entry) :
    Numbered P first (entries ++ [entry]) := by
  induction entries generalizing first with
  | nil => exact ⟨last, trivial⟩
  | cons head rest ih =>
      refine ⟨numbered.1, ih numbered.2 ?_⟩
      rw [show first + 1 + rest.length = first + (rest.length + 1) by omega]
      exact last

/-- Entries leave at the front. -/
theorem Numbered.drop {first : ℕ} {before after : List α}
    (numbered : Numbered P first (before ++ after)) :
    Numbered P (first + before.length) after := by
  induction before generalizing first with
  | nil => simpa using numbered
  | cons head rest ih =>
      rw [List.length_cons, show first + (rest.length + 1) = first + 1 + rest.length by omega]
      exact ih numbered.2

/-- Every entry meets the predicate at its number. -/
theorem Numbered.get {first : ℕ} {entries : List α} (numbered : Numbered P first entries)
    {i : ℕ} {entry : α} (found : entries[i]? = some entry) : P (first + i) entry := by
  induction entries generalizing first i with
  | nil => simp at found
  | cons head rest ih =>
      cases i with
      | zero =>
          obtain rfl : head = entry := by simpa using found
          exact numbered.1
      | succ i =>
          rw [show first + (i + 1) = first + 1 + i by omega]
          exact ih numbered.2 (by simpa using found)

/-- An entry of the queue is an older one or the one that joined last. -/
theorem getElem?_concat_eq_some_iff {entries : List α} {last entry : α} {i : ℕ} :
    (entries ++ [last])[i]? = some entry ↔
      entries[i]? = some entry ∨ i = entries.length ∧ last = entry := by
  rcases Nat.lt_trichotomy i entries.length with below | rfl | above
  · rw [List.getElem?_append_left below]
    simp [Nat.ne_of_lt below]
  · simp
  · rw [List.getElem?_eq_none (by simp; omega), List.getElem?_eq_none (Nat.le_of_lt above)]
    simp [Nat.ne_of_gt above]

/-- A longer history keeps the entries of a shorter one. -/
theorem get_of_prefix {history longer : List α} (grown : history <+: longer) {i : ℕ} {entry : α}
    (found : history[i]? = some entry) : longer[i]? = some entry := by
  obtain ⟨inside, rfl⟩ := List.getElem?_eq_some_iff.mp found
  exact List.prefix_iff_getElem?.mp grown i inside

end Queue
