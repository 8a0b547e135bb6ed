import Mathlib.Data.Nat.Init
import Mathlib.Tactic.Common

/-!
# Loops over partial transfers

A loop asks the system again and again to move bytes. A call moves at least one and at most as many
as it may, or it is interrupted and moves nothing. A schedule fixes what every call does. When the
interruptions do not go on for ever, a loop that gets closer to its end with every transfer ends.
-/

namespace Transfer

/-- A loop on states `σ`. -/
structure Loop (σ : Type*) where
  /-- Nothing is left to move. -/
  finished : σ → Bool
  /-- Most bytes one call moves; 0 when the other end offers none. -/
  limit : σ → ℕ
  /-- The state after a call that moved so many bytes. -/
  move : σ → ℕ → σ

/-- How a loop ends, with the number of the next call. -/
inductive Outcome (σ : Type*)
  | finished (state : σ) (call : ℕ)
  | stalled (state : σ) (call : ℕ)

/-- What every call does: `none` is an interruption, and `some extra` moves one byte and up to
`extra` more, as far as the limit goes. -/
abbrev Schedule := ℕ → Option ℕ

/-- Interruptions do not go on for ever. -/
def Fair (schedule : Schedule) : Prop := ∀ call, ∃ wait, schedule (call + wait) ≠ none

namespace Loop

variable {σ : Type*} (loop : Loop σ) (schedule : Schedule)

/-- Run a loop from a call on; no outcome when it needs more than `fuel` calls. -/
def run : ℕ → ℕ → σ → Option (Outcome σ)
  | fuel, call, state =>
      if loop.finished state then some (.finished state call)
      else
        match fuel with
        | 0 => none
        | fuel + 1 =>
            match schedule call with
            | none => run fuel (call + 1) state
            | some extra =>
                if loop.limit state = 0 then some (.stalled state (call + 1))
                else run fuel (call + 1) (loop.move state (min (extra + 1) (loop.limit state)))

variable {loop schedule}

theorem run_of_finished {state : σ} (finished : loop.finished state = true) (fuel call : ℕ) :
    loop.run schedule fuel call state = some (.finished state call) := by
  unfold run
  rw [if_pos finished]

theorem run_interrupt {state : σ} {call : ℕ} (unfinished : loop.finished state = false)
    (interrupted : schedule call = none) (fuel : ℕ) :
    loop.run schedule (fuel + 1) call state = loop.run schedule fuel (call + 1) state := by
  rw [run]
  simp only [unfinished, interrupted, Bool.false_eq_true, if_false]

theorem run_move {state : σ} {call extra : ℕ} (unfinished : loop.finished state = false)
    (moves : schedule call = some extra) (open_end : loop.limit state ≠ 0) (fuel : ℕ) :
    loop.run schedule (fuel + 1) call state =
      loop.run schedule fuel (call + 1) (loop.move state (min (extra + 1) (loop.limit state))) := by
  rw [run]
  simp only [unfinished, moves, open_end, Bool.false_eq_true, if_false]

/-- An interrupted loop does not end. -/
theorem run_interrupted (interrupted : ∀ call, schedule call = none) {state : σ}
    (unfinished : loop.finished state = false) (fuel call : ℕ) :
    loop.run schedule fuel call state = none := by
  induction fuel generalizing call with
  | zero =>
      unfold run
      simp [unfinished]
  | succ fuel ih => rw [run_interrupt unfinished (interrupted call), ih]

/-- A loop keeps its invariant and ends, when every transfer keeps it and brings the end closer, and
the other end always offers something. -/
theorem run_finishes (fair : Fair schedule) (loop : Loop σ) (Inv : σ → Prop) (measure : σ → ℕ)
    (open_end : ∀ state, Inv state → loop.finished state = false → loop.limit state ≠ 0)
    (step : ∀ state count, Inv state → loop.finished state = false → 0 < count →
      count ≤ loop.limit state →
        Inv (loop.move state count) ∧ measure (loop.move state count) < measure state)
    (state : σ) (inv : Inv state) (call : ℕ) :
    ∃ calls last next, Inv last ∧ loop.finished last = true ∧
      ∀ fuel ≥ calls, loop.run schedule fuel call state = some (.finished last next) := by
  induction size : measure state using Nat.strong_induction_on generalizing state call with
  | _ bound ih =>
    cases unfinished : loop.finished state with
    | true => exact ⟨0, state, call, inv, unfinished, fun fuel _ =>
        run_of_finished unfinished fuel call⟩
    | false =>
        have transfer (call extra : ℕ) (moves : schedule call = some extra) :
            ∃ calls last next, Inv last ∧ loop.finished last = true ∧
              ∀ fuel ≥ calls, loop.run schedule fuel call state = some (.finished last next) := by
          have limit := open_end state inv unfinished
          obtain ⟨kept, closer⟩ := step state (min (extra + 1) (loop.limit state)) inv unfinished
            (by omega) (by omega)
          obtain ⟨calls, last, next, done, ended, runs⟩ :=
            ih _ (size ▸ closer) _ kept (call + 1) rfl
          refine ⟨calls + 1, last, next, done, ended, fun fuel enough => ?_⟩
          obtain ⟨fuel, rfl⟩ := Nat.exists_eq_add_of_le' (show 1 ≤ fuel by omega)
          rw [run_move unfinished moves limit]
          exact runs fuel (by omega)
        obtain ⟨wait, moves⟩ := fair call
        -- Interruptions come first, then one transfer.
        induction wait generalizing call with
        | zero =>
            obtain ⟨extra, moves⟩ := Option.ne_none_iff_exists'.mp moves
            exact transfer call extra moves
        | succ wait later =>
            cases now : schedule call with
            | none =>
                obtain ⟨calls, last, next, done, ended, runs⟩ := later (call + 1) (by
                  rwa [Nat.add_assoc, Nat.add_comm 1 wait])
                refine ⟨calls + 1, last, next, done, ended, fun fuel enough => ?_⟩
                obtain ⟨fuel, rfl⟩ := Nat.exists_eq_add_of_le' (show 1 ≤ fuel by omega)
                rw [run_interrupt unfinished now]
                exact runs fuel (by omega)
            | some extra => exact transfer call extra now

end Loop

end Transfer
