import NanoNccl.Lib.Execution

/-!
# Workers that stop at their first failure

A worker is driven by calls. A call begins only while neither the worker's stop flag nor the error
flag it shares with other workers is raised. Anything inside a call may throw; the exception is
caught at the boundary of the call, where the error is reported unless a stop was requested. Work
before the first call has no such boundary, and an exception there ends the worker.

Either way no call begins after the first failure, so from then on only the surroundings act.
-/

namespace FailStop

open StepSystem

variable {σ ℓ : Type*}

/-- A worker among its surroundings. -/
structure Worker (σ ℓ : Type*) where
  /-- The moves of the worker and of its surroundings. -/
  step : σ → ℓ → Option σ
  /-- The moves of the worker itself. -/
  own : ℓ → Bool
  /-- The worker has thrown an exception. -/
  throws : σ → Bool
  /-- A move of the worker with which its call returns. -/
  finishes : σ → σ → Bool
  /-- The worker examines a completion, which may report a failure. -/
  examines : σ → Bool

/-- Where a worker stands between its calls. -/
inductive Phase
  /-- Before the first call. -/
  | preparing
  /-- Between two calls. -/
  | idle
  /-- Inside a call. -/
  | running
  /-- An exception is on its way to the boundary of the call. -/
  | throwing
  /-- An exception has left the work before the first call. -/
  | ended
  deriving DecidableEq, Repr

/-- Where an exception leads. -/
def Phase.raised : Phase → Phase
  | .preparing | .ended => .ended
  | .idle | .running | .throwing => .throwing

/-- A worker, its flags and what became of it. -/
structure State (σ : Type*) where
  /-- The worker and its surroundings. -/
  core : σ
  /-- Its calls. -/
  phase : Phase
  /-- The stop flag of the worker. -/
  stopRequested : Bool
  /-- The error flag shared with other workers. -/
  hasError : Bool
  /-- The worker has met a failure. -/
  failed : Bool

/-- One event. -/
inductive Label (ℓ : Type*)
  /-- A call is made. -/
  | call
  /-- The worker moves. -/
  | move (label : ℓ)
  /-- The surroundings move. -/
  | surroundings (label : ℓ)
  /-- An operation of the worker fails. -/
  | fail
  /-- A completion reports a failure, which is recorded before it is thrown. -/
  | failedCompletion
  /-- The exception is caught. -/
  | caught
  /-- `stop()`. -/
  | stop
  /-- `shutdown()`. -/
  | shutdown
  /-- Another worker records a failure. -/
  | otherError

/-- The state before the first event. -/
def initial (core : σ) (phase : Phase) : State σ := ⟨core, phase, false, false, false⟩

/-- The worker throws. -/
def State.raise (state : State σ) : State σ :=
  { state with phase := state.phase.raised, failed := true }

/-- The worker has moved: it throws, its call returns, or it goes on. -/
def State.moved (worker : Worker σ ℓ) (state : State σ) (next : σ) : State σ :=
  if worker.throws next then { state with core := next }.raise
  else
    { state with
      core := next
      phase := if worker.finishes state.core next then .idle else state.phase }

/-- The transition function. -/
def step (worker : Worker σ ℓ) (state : State σ) : Label ℓ → Option (State σ)
  | .call =>
      if state.phase = .idle then
        if state.stopRequested || state.hasError then some state
        else some { state with phase := .running }
      else none
  | .move label =>
      if worker.own label ∧ (state.phase = .running ∨ state.phase = .preparing) then
        (worker.step state.core label).map (state.moved worker)
      else none
  | .surroundings label =>
      if worker.own label then none
      else (worker.step state.core label).map fun next => { state with core := next }
  | .fail =>
      if state.phase = .idle ∨ state.phase = .running ∨ state.phase = .preparing then
        some state.raise
      else none
  | .failedCompletion =>
      if state.phase = .running ∧ worker.examines state.core then
        some { state with hasError := true }.raise
      else none
  | .caught =>
      if state.phase = .throwing then
        some { state with phase := .idle, hasError := state.hasError || !state.stopRequested }
      else none
  | .stop =>
      if state.stopRequested then some state
      else some { state with stopRequested := true, hasError := true }
  | .shutdown => some { state with stopRequested := true }
  | .otherError => some { state with hasError := true }

/-- A failed worker is on its way out, or a flag keeps it from another call. -/
def State.Halted (state : State σ) : Prop :=
  state.phase = .throwing ∨ state.phase = .ended ∨
    state.phase = .idle ∧ (state.stopRequested || state.hasError) = true

section

variable {worker : Worker σ ℓ} {state next : State σ} {label : Label ℓ}

theorem moved_core (worker : Worker σ ℓ) (state : State σ) (next : σ) :
    (state.moved worker next).core = next := by
  unfold State.moved
  split
  · rfl
  · rfl

/-- What an event does to the worker: nothing, or one of its moves, or one of its surroundings'. -/
theorem step_core (taken : step worker state label = some next) :
    next.core = state.core ∨
      ∃ inner, (label = .move inner ∨ label = .surroundings inner) ∧
        worker.step state.core inner = some next.core := by
  cases label with
  | move inner =>
      right
      simp only [step, Option.ite_none_right_eq_some, Option.map_eq_some_iff] at taken
      obtain ⟨-, core, moved, rfl⟩ := taken
      exact ⟨inner, .inl rfl, by rw [moved, moved_core]⟩
  | surroundings inner =>
      right
      simp only [step, Option.ite_none_left_eq_some, Option.map_eq_some_iff] at taken
      obtain ⟨-, core, moved, rfl⟩ := taken
      exact ⟨inner, .inr rfl, moved⟩
  | shutdown | otherError => exact .inl (Option.some.inj taken ▸ rfl)
  | call | fail | failedCompletion | caught | stop =>
      left
      simp only [step] at taken
      split_ifs at taken
      all_goals exact Option.some.inj taken ▸ rfl

theorem State.Halted.not_active (halted : state.Halted) :
    ¬(state.phase = .running ∨ state.phase = .preparing) := by
  intro active
  rcases halted with phase | phase | ⟨phase, -⟩
  all_goals rcases active with active | active
  all_goals exact absurd (active.symm.trans phase) (by decide)

/-- An exception halts the worker. -/
theorem State.raise_halted
    (active : state.phase = .idle ∨ state.phase = .running ∨ state.phase = .preparing) :
    state.raise.Halted := by
  rcases active with idle | running | preparing
  · exact .inl (by simp [State.raise, idle, Phase.raised])
  · exact .inl (by simp [State.raise, running, Phase.raised])
  · exact .inr (.inl (by simp [State.raise, preparing, Phase.raised]))

/-- A halted worker stays halted while flags are raised. -/
theorem State.Halted.flag (halted : state.Halted) (phase : next.phase = state.phase)
    (flags : (next.stopRequested || next.hasError) = true) : next.Halted := by
  rcases halted with throwing | ended | ⟨idle, -⟩
  · exact .inl (phase.trans throwing)
  · exact .inr (.inl (phase.trans ended))
  · exact .inr (.inr ⟨phase.trans idle, flags⟩)

/-- Only moves of the worker itself can make it fail, and then it halts. -/
theorem halted_of_step (halted : state.failed = true → state.Halted)
    (taken : step worker state label = some next) : next.failed = true → next.Halted := by
  intro failed
  cases label with
  | call =>
      simp only [step] at taken
      split_ifs at taken with idle flagged
      · obtain rfl := Option.some.inj taken
        exact halted failed
      · obtain rfl := Option.some.inj taken
        rcases halted failed with throwing | ended | ⟨-, flags⟩
        · exact absurd (idle.symm.trans throwing) (by decide)
        · exact absurd (idle.symm.trans ended) (by decide)
        · exact absurd flags flagged
  | move inner =>
      simp only [step, Option.ite_none_right_eq_some, Option.map_eq_some_iff] at taken
      obtain ⟨⟨-, active⟩, core, moved, rfl⟩ := taken
      unfold State.moved at failed ⊢
      split at failed
      case isTrue thrown =>
        rw [if_pos thrown]
        exact State.raise_halted (.inr active)
      case isFalse =>
        -- A worker that has failed before is not inside a call.
        exact absurd active (halted failed).not_active
  | surroundings inner =>
      simp only [step, Option.ite_none_left_eq_some, Option.map_eq_some_iff] at taken
      obtain ⟨-, core, -, rfl⟩ := taken
      exact halted failed
  | fail =>
      simp only [step, Option.ite_none_right_eq_some, Option.some.injEq] at taken
      obtain ⟨active, rfl⟩ := taken
      exact State.raise_halted active
  | failedCompletion =>
      simp only [step, Option.ite_none_right_eq_some, Option.some.injEq] at taken
      obtain ⟨⟨running, -⟩, rfl⟩ := taken
      exact State.raise_halted (.inr (.inl running))
  | caught =>
      simp only [step, Option.ite_none_right_eq_some, Option.some.injEq] at taken
      obtain ⟨-, rfl⟩ := taken
      refine .inr (.inr ⟨rfl, ?_⟩)
      cases state.stopRequested <;> simp
  | stop =>
      simp only [step] at taken
      split_ifs at taken with stopped
      · obtain rfl := Option.some.inj taken
        exact halted failed
      · obtain rfl := Option.some.inj taken
        exact (halted failed).flag rfl rfl
  | shutdown =>
      obtain rfl := Option.some.inj taken
      exact (halted failed).flag rfl rfl
  | otherError =>
      obtain rfl := Option.some.inj taken
      exact (halted failed).flag rfl (Bool.or_true _)

/-- A halted worker stays halted, and only its surroundings move. -/
theorem step_of_failed (failed : state.failed = true) (halted : state.Halted)
    (taken : step worker state label = some next) :
    next.failed = true ∧ (next.core = state.core ∨
      ∃ inner, label = .surroundings inner ∧ worker.own inner = false ∧
        worker.step state.core inner = some next.core) := by
  cases label with
  | move inner =>
      simp only [step, Option.ite_none_right_eq_some] at taken
      exact absurd taken.1.2 halted.not_active
  | surroundings inner =>
      simp only [step, Option.ite_none_left_eq_some, Option.map_eq_some_iff,
        Bool.not_eq_true] at taken
      obtain ⟨other, core, moved, rfl⟩ := taken
      exact ⟨failed, .inr ⟨inner, rfl, other, moved⟩⟩
  | shutdown | otherError => exact Option.some.inj taken ▸ ⟨failed, .inl rfl⟩
  | fail | failedCompletion =>
      simp only [step, Option.ite_none_right_eq_some] at taken
      exact Option.some.inj taken.2 ▸ ⟨rfl, .inl rfl⟩
  | call | caught | stop =>
      simp only [step] at taken
      split_ifs at taken
      all_goals exact Option.some.inj taken ▸ ⟨failed, .inl rfl⟩

end

section

variable {worker : Worker σ ℓ} {start : σ} {phase : Phase}

/-- The worker of a reachable state is in a state it can reach by its own moves and those of its
surroundings. -/
theorem core_reachable {state : State σ}
    (reach : Reachable (step worker) (initial start phase) state) :
    Reachable worker.step start state.core := by
  refine reach.invariant (fun state => Reachable worker.step start state.core) ?_ ⟨[], rfl⟩
  intro state label next reached taken
  rcases step_core taken with same | ⟨inner, -, moved⟩
  · rwa [same]
  · exact reached.extend moved

theorem halted_of_reachable {state : State σ}
    (reach : Reachable (step worker) (initial start phase) state) :
    state.failed = true → state.Halted :=
  reach.invariant (fun state => state.failed = true → state.Halted)
    (fun _ _ _ halted taken => halted_of_step halted taken) (fun failed => by cases failed)

/-- After the first failure, whatever the quiet moves of the surroundings leave alone never changes
again. -/
theorem frozen {α : Type*} (observe : σ → α) (quiet : ℓ → Prop)
    (harmless : ∀ core label next, worker.own label = false → quiet label →
      worker.step core label = some next → observe next = observe core)
    {state final : State σ} {labels : List (Label ℓ)} (failed : state.failed = true)
    (halted : state.Halted) (all_quiet : ∀ label, .surroundings label ∈ labels → quiet label)
    (execution : exec (step worker) state labels = some final) :
    observe final.core = observe state.core := by
  induction labels generalizing state with
  | nil =>
      obtain rfl : state = final := by simpa using execution
      rfl
  | cons label labels ih =>
      rw [exec_cons] at execution
      obtain ⟨next, taken, rest⟩ := Option.bind_eq_some_iff.mp execution
      obtain ⟨still, moved⟩ := step_of_failed failed halted taken
      have later := ih still (halted_of_step (fun _ => halted) taken still)
        (fun label member => all_quiet label (List.mem_cons_of_mem _ member)) rest
      rw [later]
      rcases moved with same | ⟨inner, rfl, other, moved⟩
      · rw [same]
      · exact harmless _ _ _ other (all_quiet inner List.mem_cons_self) moved

/-- What a worker publishes is safe from its failures. It publishes units of work, in order, by a
counter that takes the values `value 0`, `value 1`, ..., and it labels them with sizes. Every unit
below the counter is done, the counter never goes back, and after the first failure neither changes
again; the sizes may still be stored by moves of the surroundings that are not quiet. -/
structure FailSafe (worker : Worker σ ℓ) (start : σ) (phase : Phase) (counter : σ → ℕ)
    (value : ℕ → ℕ) (done : σ → ℕ → Prop) (sizes : σ → ℕ → ℕ) (quiet : ℓ → Prop) : Prop where
  values : ∀ state, Reachable (step worker) (initial start phase) state →
    ∃ count, counter state.core = value count ∧ ∀ k < count, done state.core k
  increasing : ∀ state label next, Reachable (step worker) (initial start phase) state →
    step worker state label = some next → counter state.core ≤ counter next.core
  frozenCounter : ∀ state labels final, Reachable (step worker) (initial start phase) state →
    state.failed = true → exec (step worker) state labels = some final →
      counter final.core = counter state.core
  frozenSizes : ∀ state labels final, Reachable (step worker) (initial start phase) state →
    state.failed = true → exec (step worker) state labels = some final →
      (∀ label, .surroundings label ∈ labels → quiet label) →
        sizes final.core = sizes state.core

/-- A worker is safe when its own moves and those of its surroundings are, and when the
surroundings leave the counter alone. -/
theorem failSafe_of_core {counter : σ → ℕ} {value : ℕ → ℕ} {done : σ → ℕ → Prop}
    {sizes : σ → ℕ → ℕ} {quiet : ℓ → Prop}
    (values : ∀ core, Reachable worker.step start core →
      ∃ count, counter core = value count ∧ ∀ k < count, done core k)
    (increasing : ∀ core label next, Reachable worker.step start core →
      worker.step core label = some next → counter core ≤ counter next)
    (counter_kept : ∀ core label next, worker.own label = false →
      worker.step core label = some next → counter next = counter core)
    (sizes_kept : ∀ core label next, worker.own label = false → quiet label →
      worker.step core label = some next → sizes next = sizes core) :
    FailSafe worker start phase counter value done sizes quiet where
  values := fun state reach => values state.core (core_reachable reach)
  increasing := by
    intro state label next reach taken
    rcases step_core taken with same | ⟨inner, -, moved⟩
    · exact Nat.le_of_eq (congrArg counter same.symm)
    · exact increasing _ _ _ (core_reachable reach) moved
  frozenCounter := by
    intro state labels final reach failed execution
    have harmless : ∀ core label next, worker.own label = false → True →
        worker.step core label = some next → counter next = counter core :=
      fun core label next other _ => counter_kept core label next other
    exact frozen counter (fun _ => True) harmless failed (halted_of_reachable reach failed)
      (fun _ _ => trivial) execution
  frozenSizes := by
    intro state labels final reach failed execution all_quiet
    exact frozen sizes quiet sizes_kept failed (halted_of_reachable reach failed) all_quiet
      execution

end

end FailStop
