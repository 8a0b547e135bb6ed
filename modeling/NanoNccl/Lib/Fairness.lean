import Mathlib.Order.WellFounded
import NanoNccl.Lib.Execution

/-!
# Infinite runs and weak fairness

A system that makes only boundedly many moves of one kind makes, in every run, only moves of the
other kind from some point on. Weak fairness then decides: a move of the first kind that stays
enabled would have to be taken.
-/

namespace StepSystem

variable {σ ℓ : Type*} {step : σ → ℓ → Option σ} {initial final : σ}

/-- What happens at one instant of a run: a label is taken, or nothing happens. -/
def Instant (step : σ → ℓ → Option σ) (state : σ) (label : Option ℓ) (next : σ) : Prop :=
  match label with
  | none => next = state
  | some label => step state label = some next

/-- An infinite run, with stutters. -/
structure Run (step : σ → ℓ → Option σ) (initial : σ) where
  /-- The states, one after the other. -/
  state : ℕ → σ
  /-- The labels between them. -/
  label : ℕ → Option ℓ
  start : state 0 = initial
  instants : ∀ n, Instant step (state n) (label n) (state (n + 1))

/-- The label can be taken. -/
def Enabled (step : σ → ℓ → Option σ) (state : σ) (label : ℓ) : Prop :=
  ∃ next, step state label = some next

/-! ## A potential that bounds the moves -/

/-- Labels of an execution that are not quiet are paid for by a potential. -/
theorem exec_pays (potential : σ → ℕ) (quiet : ℓ → Bool)
    (falls : ∀ state label next, step state label = some next →
      potential next + (if quiet label then 0 else 1) ≤ potential state) {labels : List ℓ}
    (execution : exec step initial labels = some final) :
    potential final + (labels.filter fun label => !quiet label).length ≤ potential initial := by
  induction labels generalizing initial with
  | nil =>
      obtain rfl : initial = final := by simpa using execution
      simp
  | cons label labels ih =>
      rw [exec_cons] at execution
      obtain ⟨next, first, later⟩ := Option.bind_eq_some_iff.mp execution
      have now := falls initial label next first
      have then_on := ih later
      cases kind : quiet label <;>
        simp only [kind, Bool.false_eq_true, if_false, if_true] at now <;>
        simp only [List.filter_cons, kind, Bool.not_false, Bool.not_true, Bool.false_eq_true,
          if_false, if_true, List.length_cons] <;> omega

namespace Run

variable (run : Run step initial)

/-- A label that stays enabled from some point on is taken after it. -/
def WeaklyFair (label : ℓ) : Prop :=
  ∀ n, (∀ m ≥ n, Enabled step (run.state m) label) → ∃ m ≥ n, run.label m = some label

variable {run}

theorem reachable (n : ℕ) : Reachable step initial (run.state n) := by
  induction n with
  | zero =>
      rw [run.start]
      exact ⟨[], rfl⟩
  | succ n ih =>
      have instant := run.instants n
      unfold Instant at instant
      split at instant
      · rwa [instant]
      · exact ih.extend instant

/-- What every instant from `n` on preserves holds from `n` on. -/
theorem from_on {P : σ → Prop} {n : ℕ} (holds : P (run.state n))
    (preserves : ∀ m ≥ n, P (run.state m) → P (run.state (m + 1))) :
    ∀ m ≥ n, P (run.state m) := by
  intro m later
  induction m, later using Nat.le_induction with
  | base => exact holds
  | succ m later ih => exact preserves m later ih

/-- A run that pays for its moves makes only quiet ones from some point on. -/
theorem eventually_quiet (potential : σ → ℕ) (quiet : ℓ → Bool)
    (falls : ∀ state label next, step state label = some next →
      potential next + (if quiet label then 0 else 1) ≤ potential state) :
    ∃ n, ∀ m ≥ n, ∀ label, run.label m = some label → quiet label = true := by
  -- Take the point at which the potential is least.
  obtain ⟨least, ⟨n, rfl⟩, minimal⟩ :=
    WellFounded.has_min (measure potential).wf (Set.range run.state) ⟨_, 0, rfl⟩
  have settled : ∀ m ≥ n, potential (run.state m) ≤ potential (run.state n) := by
    refine from_on (P := fun state => potential state ≤ potential (run.state n)) le_rfl
      fun m _ bound => ?_
    have instant := run.instants m
    unfold Instant at instant
    split at instant
    · rwa [instant]
    · exact (Nat.le_of_add_right_le (falls _ _ _ instant)).trans bound
  refine ⟨n, fun m later label taken => ?_⟩
  by_contra loud
  have instant := run.instants m
  rw [taken] at instant
  have paid := falls _ _ _ instant
  rw [if_neg loud] at paid
  have bound := settled m later
  exact minimal (run.state (m + 1)) ⟨m + 1, rfl⟩
    (show potential (run.state (m + 1)) < potential (run.state n) by omega)

/-- A label that is never taken again is disabled again and again. -/
theorem exists_disabled {label : ℓ} {n : ℕ} (fair : run.WeaklyFair label)
    (untaken : ∀ m ≥ n, run.label m ≠ some label) :
    ∃ m ≥ n, ¬ Enabled step (run.state m) label := by
  by_contra always
  push Not at always
  obtain ⟨m, later, taken⟩ := fair n always
  exact untaken m later taken

end Run

/-! ## Finite executions as runs -/

/-- The state after the first `n` labels of an execution. -/
def stateAfter (step : σ → ℓ → Option σ) (initial : σ) (labels : List ℓ) (n : ℕ) : σ :=
  (exec step initial (labels.take n)).getD initial

theorem exec_take {labels : List ℓ} (execution : exec step initial labels = some final) (n : ℕ) :
    exec step initial (labels.take n) = some (stateAfter step initial labels n) := by
  rw [← List.take_append_drop n labels, exec_append] at execution
  obtain ⟨between, first, -⟩ := Option.bind_eq_some_iff.mp execution
  rw [stateAfter, first]
  rfl

/-- An execution followed by silence. -/
def Run.ofExec {labels : List ℓ} (execution : exec step initial labels = some final) :
    Run step initial where
  state := stateAfter step initial labels
  label := fun n => labels[n]?
  start := rfl
  instants := by
    intro n
    have now := exec_take execution n
    have next := exec_take execution (n + 1)
    unfold Instant
    cases found : labels[n]? with
    | none =>
        have ended : labels.length ≤ n := List.getElem?_eq_none_iff.mp found
        simp only [stateAfter, List.take_of_length_le ended,
          List.take_of_length_le (ended.trans (Nat.le_succ n))]
    | some label =>
        rw [List.take_add_one, found, Option.toList_some, exec_concat, now] at next
        exact next

/-- When the execution ends where nothing is enabled, its run is fair. -/
theorem Run.ofExec_fair {labels : List ℓ} (execution : exec step initial labels = some final)
    (ended : ∀ label, ¬ Enabled step final label) (label : ℓ) :
    (Run.ofExec execution).WeaklyFair label := by
  intro n always
  have last := always (max n labels.length) (le_max_left _ _)
  simp only [Run.ofExec, stateAfter, List.take_of_length_le (le_max_right n labels.length),
    execution, Option.getD_some] at last
  exact absurd last (ended label)

end StepSystem
