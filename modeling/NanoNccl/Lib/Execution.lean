import Mathlib.Data.List.Basic
import Mathlib.Data.Option.Basic

/-!
# Finite executions of a partial step function

A system is a partial function `step : σ → ℓ → Option σ`: a label that is not enabled has no
successor. An execution is a list of labels, so every interleaving of the parties of a system is
one list, and a safety property is an invariant carried along every list.
-/

namespace StepSystem

variable {σ ℓ : Type*} {step : σ → ℓ → Option σ}

/-- Execute a list of labels, failing at the first label that is not enabled. -/
def exec (step : σ → ℓ → Option σ) : σ → List ℓ → Option σ
  | state, [] => some state
  | state, label :: labels => (step state label).bind fun next => exec step next labels

/-- The states some finite execution from `initial` ends in. -/
def Reachable (step : σ → ℓ → Option σ) (initial state : σ) : Prop :=
  ∃ labels, exec step initial labels = some state

/-- Every label of the execution meets `condition` in the state it is executed in. -/
def Along (step : σ → ℓ → Option σ) (condition : σ → ℓ → Prop) : σ → List ℓ → Prop
  | _, [] => True
  | state, label :: labels =>
      condition state label ∧ ∀ next, step state label = some next →
        Along step condition next labels

@[simp] theorem exec_nil (state : σ) : exec step state [] = some state := rfl

theorem exec_cons (state : σ) (label : ℓ) (labels : List ℓ) :
    exec step state (label :: labels) =
      (step state label).bind fun next => exec step next labels := rfl

/-- An invariant carried along an execution whose labels all meet a condition. -/
theorem exec_invariant_along (Inv : σ → Prop) {condition : σ → ℓ → Prop}
    (preserves : ∀ state label next, Inv state → condition state label →
      step state label = some next → Inv next)
    {initial final : σ} {labels : List ℓ} (start : Inv initial)
    (along : Along step condition initial labels)
    (execution : exec step initial labels = some final) : Inv final := by
  induction labels generalizing initial with
  | nil =>
      obtain rfl : initial = final := by simpa using execution
      exact start
  | cons label labels ih =>
      rw [exec_cons] at execution
      obtain ⟨next, first, later⟩ := Option.bind_eq_some_iff.mp execution
      exact ih (preserves initial label next start along.1 first) (along.2 next first) later

theorem along_of_forall {condition : σ → ℓ → Prop}
    (always : ∀ state label, condition state label) (initial : σ) (labels : List ℓ) :
    Along step condition initial labels := by
  induction labels generalizing initial with
  | nil => trivial
  | cons label labels ih => exact ⟨always initial label, fun next _ => ih next⟩

/-- Evaluate a check on every label of an execution. -/
def checkAlong (step : σ → ℓ → Option σ) (check : σ → ℓ → Bool) : σ → List ℓ → Bool
  | _, [] => true
  | state, label :: labels =>
      check state label && (step state label).all fun next => checkAlong step check next labels

theorem along_of_checkAlong {condition : σ → ℓ → Prop} {check : σ → ℓ → Bool}
    (sound : ∀ state label, check state label = true → condition state label) {initial : σ}
    {labels : List ℓ} (checked : checkAlong step check initial labels = true) :
    Along step condition initial labels := by
  induction labels generalizing initial with
  | nil => trivial
  | cons label labels ih =>
      simp only [checkAlong, Bool.and_eq_true] at checked
      refine ⟨sound initial label checked.1, fun next taken => ih ?_⟩
      simpa [taken] using checked.2

/-- A log that every step extends by entries of one kind is extended by such entries along an
execution, as long as an invariant holds. -/
theorem exec_appends {ε : Type*} (log : σ → List ε) {P : ε → Prop} (Inv : σ → Prop)
    (preserves : ∀ state label next, Inv state → step state label = some next → Inv next)
    (appends : ∀ state label next, Inv state → step state label = some next →
      ∃ new, log next = log state ++ new ∧ ∀ entry ∈ new, P entry)
    {initial final : σ} {labels : List ℓ} (start : Inv initial)
    (execution : exec step initial labels = some final) :
    Inv final ∧ ∃ later, log final = log initial ++ later ∧ ∀ entry ∈ later, P entry := by
  induction labels generalizing initial with
  | nil =>
      obtain rfl : initial = final := by simpa using execution
      exact ⟨start, [], by simp⟩
  | cons label labels ih =>
      rw [exec_cons] at execution
      obtain ⟨next, first, rest⟩ := Option.bind_eq_some_iff.mp execution
      obtain ⟨new, grown, now⟩ := appends initial label next start first
      obtain ⟨last, later, complete, then_on⟩ := ih (preserves initial label next start first) rest
      refine ⟨last, new ++ later, by simp [complete, grown], ?_⟩
      intro entry member
      rcases List.mem_append.mp member with at_once | afterwards
      · exact now entry at_once
      · exact then_on entry afterwards

/-- An invariant of every step is an invariant of every reachable state. -/
theorem Reachable.invariant (Inv : σ → Prop)
    (preserves : ∀ state label next, Inv state → step state label = some next → Inv next)
    {initial final : σ} (start : Inv initial) (reach : Reachable step initial final) :
    Inv final := by
  obtain ⟨labels, execution⟩ := reach
  have unconditional : Along step (fun _ _ => True) initial labels :=
    along_of_forall (fun _ _ => trivial) initial labels
  exact exec_invariant_along Inv (fun state label next inv _ => preserves state label next inv)
    start unconditional execution

theorem exec_concat (state : σ) (labels : List ℓ) (label : ℓ) :
    exec step state (labels ++ [label]) =
      (exec step state labels).bind fun next => step next label := by
  induction labels generalizing state with
  | nil => cases taken : step state label <;> simp [exec_cons, taken]
  | cons first labels ih => simp [exec_cons, ih, Option.bind_assoc]

theorem exec_append (state : σ) (first second : List ℓ) :
    exec step state (first ++ second) =
      (exec step state first).bind fun next => exec step next second := by
  induction first generalizing state with
  | nil => rfl
  | cons label first ih => simp [exec_cons, ih, Option.bind_assoc]

theorem Reachable.extend {initial state next : σ} {label : ℓ}
    (reach : Reachable step initial state) (taken : step state label = some next) :
    Reachable step initial next := by
  obtain ⟨labels, execution⟩ := reach
  exact ⟨labels ++ [label], by rw [exec_concat, execution, Option.bind_some, taken]⟩

/-- The states between two calls of one party: none was made yet, or the last one has returned and
only others have moved since. -/
inductive Between (step : σ → ℓ → Option σ) (initial : σ) (own : ℓ → Prop)
    (returns : σ → σ → Prop) : σ → Prop
  | start : Between step initial own returns initial
  | call {state next : σ} {label : ℓ} (reach : Reachable step initial state)
      (taken : step state label = some next) (returned : returns state next) :
      Between step initial own returns next
  | others {state next : σ} {label : ℓ} (between : Between step initial own returns state)
      (other : ¬ own label) (taken : step state label = some next) :
      Between step initial own returns next

variable {initial : σ} {own : ℓ → Prop} {returns : σ → σ → Prop}

theorem Between.reachable {state : σ} (between : Between step initial own returns state) :
    Reachable step initial state := by
  induction between with
  | start => exact ⟨[], rfl⟩
  | call reach taken _ => exact reach.extend taken
  | others _ _ taken ih => exact ih.extend taken

theorem between_of_exec {labels : List ℓ} {state : σ}
    (execution : exec step initial labels = some state)
    (returned : ∀ before, returns before state) : Between step initial own returns state := by
  rcases List.eq_nil_or_concat labels with rfl | ⟨earlier, label, rfl⟩
  · obtain rfl : initial = state := by simpa using execution
    exact .start
  · rw [List.concat_eq_append, exec_concat] at execution
    obtain ⟨before, reached, taken⟩ := Option.bind_eq_some_iff.mp execution
    exact .call ⟨earlier, reached⟩ taken (returned before)

/-- What every call leaves and nobody else disturbs holds between calls. -/
theorem Between.invariant (Inv : σ → Prop) (start : Inv initial)
    (left_by_call : ∀ state label next, Reachable step initial state →
      step state label = some next → returns state next → Inv next)
    (kept : ∀ state label next, ¬ own label → Inv state → step state label = some next → Inv next)
    {state : σ} (between : Between step initial own returns state) : Inv state := by
  induction between with
  | start => exact start
  | call reach taken returned => exact left_by_call _ _ _ reach taken returned
  | others _ other taken ih => exact kept _ _ _ other ih taken

end StepSystem
