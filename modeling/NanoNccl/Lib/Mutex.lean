import Mathlib.Data.List.Basic
import Mathlib.Logic.Function.Basic
import NanoNccl.Lib.Execution

/-!
# Threads around one mutex

Threads indexed by `ι` share some locations and one mutex. Each thread stands before its next
operation, a value of `π`, and the answers threads receive are kept in a log. Mutual exclusion is
one equivalence between the operations inside critical sections and the owner of the mutex; every
move of a thread keeps it.
-/

namespace Mutex

variable {ι π μ ε : Type*}

/-- Shared locations, mutex, threads and the answers given so far. -/
structure State (ι π μ ε : Type*) where
  /-- The locations all threads share. -/
  shared : μ
  /-- The thread that holds the mutex. -/
  mutex : Option ι
  /-- The next operation of each thread. -/
  pc : ι → π
  /-- Every answer the threads received, oldest first. -/
  log : List ε

/-- A thread receives an answer. -/
def State.answer (state : State ι π μ ε) (event : ε) : State ι π μ ε :=
  { state with log := state.log ++ [event] }

@[simp] theorem State.shared_answer (state : State ι π μ ε) (event : ε) :
    (state.answer event).shared = state.shared := rfl

@[simp] theorem State.log_answer (state : State ι π μ ε) (event : ε) :
    (state.answer event).log = state.log ++ [event] := rfl

/-- The threads inside a critical section are the owner of the mutex. -/
def Exclusive (holds : π → Prop) (state : State ι π μ ε) : Prop :=
  ∀ thread, holds (state.pc thread) ↔ state.mutex = some thread

namespace Exclusive

variable {holds : π → Prop} {state : State ι π μ ε} {thread other : ι}

/-- Next to a thread inside a critical section there is no second one. -/
theorem alone (exclusive : Exclusive holds state) (inside : holds (state.pc thread))
    (distinct : other ≠ thread) : ¬holds (state.pc other) := by
  intro both
  have first : state.mutex = some thread := (exclusive thread).mp inside
  have second : state.mutex = some other := (exclusive other).mp both
  rw [first] at second
  exact distinct (Option.some.inj second).symm

end Exclusive

section Moves

variable [DecidableEq ι]

namespace State

/-- A thread performs an operation on the shared locations and goes on to its next one. -/
def act (state : State ι π μ ε) (thread : ι) (shared : μ) (pc : π) : State ι π μ ε :=
  { state with shared := shared, pc := Function.update state.pc thread pc }

/-- A thread that touches no shared location goes on to its next operation. -/
def goto (state : State ι π μ ε) (thread : ι) (pc : π) : State ι π μ ε :=
  state.act thread state.shared pc

/-- A thread acquires the free mutex. -/
def acquire (state : State ι π μ ε) (thread : ι) (pc : π) : Option (State ι π μ ε) :=
  if state.mutex = none then some { state.goto thread pc with mutex := some thread } else none

/-- A thread releases the mutex. -/
def release (state : State ι π μ ε) (thread : ι) (pc : π) : State ι π μ ε :=
  { state.goto thread pc with mutex := none }

variable (state : State ι π μ ε) (thread : ι) (shared : μ) (pc : π)

@[simp] theorem shared_act : (state.act thread shared pc).shared = shared := rfl
@[simp] theorem mutex_act : (state.act thread shared pc).mutex = state.mutex := rfl
@[simp] theorem log_act : (state.act thread shared pc).log = state.log := rfl
@[simp] theorem pc_act : (state.act thread shared pc).pc = Function.update state.pc thread pc :=
  rfl
@[simp] theorem shared_goto : (state.goto thread pc).shared = state.shared := rfl
@[simp] theorem log_goto : (state.goto thread pc).log = state.log := rfl
@[simp] theorem pc_goto : (state.goto thread pc).pc = Function.update state.pc thread pc := rfl
@[simp] theorem shared_release : (state.release thread pc).shared = state.shared := rfl
@[simp] theorem log_release : (state.release thread pc).log = state.log := rfl
@[simp] theorem pc_release : (state.release thread pc).pc = Function.update state.pc thread pc :=
  rfl

/-- A successful acquisition found the mutex free. -/
theorem acquire_eq_some {next : State ι π μ ε} :
    state.acquire thread pc = some next ↔
      state.mutex = none ∧ { state.goto thread pc with mutex := some thread } = next := by
  unfold acquire
  rw [Option.ite_none_right_eq_some, Option.some.injEq]

end State

variable {holds : π → Prop} {state next : State ι π μ ε} {thread : ι} {shared : μ} {pc : π}

/-- A property of every thread, after one thread has moved. -/
theorem forall_update {P : π → Prop} {table : ι → π} (own : P pc)
    (others : ∀ other, other ≠ thread → P (table other)) (other : ι) :
    P (Function.update table thread pc other) := by
  rw [Function.update_apply]
  split_ifs with same
  · exact own
  · exact others other same

/-- A property of some thread survives a move that keeps it. -/
theorem exists_update_of_imp {P : π → Prop} {table : ι → π} (others : ∃ other, P (table other))
    (kept : P (table thread) → P pc) : ∃ other, P (Function.update table thread pc other) := by
  obtain ⟨other, here⟩ := others
  by_cases same : other = thread
  · exact ⟨thread, by simpa using kept (same ▸ here)⟩
  · exact ⟨other, by simpa [same] using here⟩

/-- A property of some thread survives the move of a thread that did not have it. -/
theorem exists_update {P : π → Prop} {table : ι → π} (others : ∃ other, P (table other))
    (gone : ¬P (table thread)) : ∃ other, P (Function.update table thread pc other) :=
  exists_update_of_imp others fun here => absurd here gone

namespace Exclusive

/-- An operation that neither enters nor leaves a critical section. -/
theorem act (exclusive : Exclusive holds state) (same : holds pc ↔ holds (state.pc thread)) :
    Exclusive holds (state.act thread shared pc) := by
  intro other
  rw [State.pc_act, State.mutex_act, Function.update_apply]
  split_ifs with moved
  · rw [same, moved]
    exact exclusive thread
  · exact exclusive other

/-- Acquisition enters a critical section. -/
theorem acquire (exclusive : Exclusive holds state) (inside : holds pc)
    (taken : state.acquire thread pc = some next) : Exclusive holds next := by
  obtain ⟨free, rfl⟩ := (state.acquire_eq_some thread pc).mp taken
  intro other
  rw [State.pc_goto, Function.update_apply]
  split_ifs with moved
  · simpa [moved] using inside
  · have outside : ¬holds (state.pc other) := by
      rw [exclusive other, free]
      simp
    simpa [outside] using Ne.symm moved

/-- Release leaves a critical section. -/
theorem release (exclusive : Exclusive holds state) (held : holds (state.pc thread))
    (outside : ¬holds pc) : Exclusive holds (state.release thread pc) := by
  intro other
  rw [State.pc_release, Function.update_apply]
  split_ifs with moved
  · simpa [State.release] using outside
  · simpa [State.release] using exclusive.alone held moved

end Exclusive

end Moves

end Mutex
