import Mathlib.Data.Nat.Basic
import Mathlib.Order.Basic
import NanoNccl.Lib.Execution

/-!
# Pipes

A pipe hands payloads from one producer to one consumer. What it is for is a `Line`: the producer
stages a payload and publishes it, the consumer takes the published payloads in order and releases
each one before it takes the next. A pipe has a state of its own, moves of its own between the two
ends, and a refinement mapping to a line that none of its own moves disturbs.
-/

/-- The abstract queue between a producer and a consumer. -/
structure Line (β : Type*) where
  /-- Payloads published, oldest first. -/
  published : List (List β)
  /-- Payload written and not published yet. -/
  staged : Option (List β)
  /-- Number of payloads taken. -/
  taken : ℕ
  /-- The payload taken last is not released yet. -/
  reading : Bool
  deriving DecidableEq, Repr

namespace Line

variable {β : Type*}

/-- A line before its first payload. -/
def empty : Line β := ⟨[], none, 0, false⟩

/-- The producer writes a payload. -/
def stage (line : Line β) (payload : List β) : Option (Line β) :=
  if line.staged = none then some { line with staged := some payload } else none

/-- The producer publishes the payload it has written. -/
def publish (line : Line β) : Option (Line β) :=
  match line.staged with
  | none => none
  | some payload =>
      some { line with published := line.published ++ [payload], staged := none }

/-- The consumer takes the next payload. -/
def take (line : Line β) : Option (Line β) :=
  if line.reading = false ∧ line.taken < line.published.length then
    some { line with taken := line.taken + 1, reading := true }
  else none

/-- The consumer releases the payload it has taken. -/
def release (line : Line β) : Option (Line β) :=
  if line.reading = true then some { line with reading := false } else none

/-- Number of payloads released. -/
def released (line : Line β) : ℕ := line.taken - line.reading.toNat

variable {line next : Line β} {payload : List β}

theorem stage_eq_some :
    line.stage payload = some next ↔
      line.staged = none ∧ next = { line with staged := some payload } := by
  unfold stage
  split_ifs with idle
  · simp [idle, eq_comm]
  · simp [idle]

theorem publish_eq_some :
    line.publish = some next ↔ ∃ payload, line.staged = some payload ∧
      next = { line with published := line.published ++ [payload], staged := none } := by
  unfold publish
  cases line.staged <;> simp [eq_comm]

theorem take_eq_some :
    line.take = some next ↔ line.reading = false ∧ line.taken < line.published.length ∧
      next = { line with taken := line.taken + 1, reading := true } := by
  unfold take
  split_ifs with ready
  · simp [ready, eq_comm]
  · simp only [false_iff]
    exact fun ends => ready ⟨ends.1, ends.2.1⟩

theorem release_eq_some :
    line.release = some next ↔ line.reading = true ∧ next = { line with reading := false } := by
  unfold release
  split_ifs with busy
  · simp [busy, eq_comm]
  · simp [busy]

/-- What only the producer changes. -/
def producer (line : Line β) : List (List β) × Option (List β) := (line.published, line.staged)

/-- What only the consumer changes. -/
def consumer (line : Line β) : ℕ × Bool := (line.taken, line.reading)

theorem consumer_stage (staged : line.stage payload = some next) :
    next.consumer = line.consumer := by
  obtain ⟨-, rfl⟩ := stage_eq_some.mp staged
  rfl

theorem consumer_publish (published : line.publish = some next) :
    next.consumer = line.consumer := by
  obtain ⟨payload, -, rfl⟩ := publish_eq_some.mp published
  rfl

theorem producer_take (taken : line.take = some next) : next.producer = line.producer := by
  obtain ⟨-, -, rfl⟩ := take_eq_some.mp taken
  rfl

theorem producer_release (released : line.release = some next) :
    next.producer = line.producer := by
  obtain ⟨-, rfl⟩ := release_eq_some.mp released
  rfl

/-- No more is taken than was published, and what is being read was taken. -/
structure Ok (line : Line β) : Prop where
  taken_le : line.taken ≤ line.published.length
  taken_pos : line.reading = true → 0 < line.taken

theorem ok_empty : (empty : Line β).Ok := ⟨le_rfl, fun busy => by simp [empty] at busy⟩

/-- The payload being read is one that was published. -/
theorem Ok.exists_reading (ok : line.Ok) (busy : line.reading = true) :
    ∃ k payload, line.taken = k + 1 ∧ line.published[k]? = some payload := by
  obtain ⟨k, last⟩ := Nat.exists_eq_succ_of_ne_zero (ok.taken_pos busy).ne'
  have inside : k < line.published.length := by
    have := ok.taken_le
    omega
  exact ⟨k, _, last, List.getElem?_eq_getElem inside⟩

end Line

/-- A pipe: an implementation of a line. -/
structure Pipe (β : Type*) where
  /-- State of both ends and of what lies between them. -/
  State : Type
  /-- Moves of the pipe's own parties. -/
  Own : Type
  /-- State before the first payload. -/
  start : State
  /-- The producer writes a payload. -/
  fill : State → List β → Option State
  /-- The producer publishes it. -/
  publish : State → Option State
  /-- The consumer finds the next payload. -/
  take : State → Option State
  /-- The first cells of the payload the consumer has taken. -/
  peek : State → ℕ → List β
  /-- The consumer gives the payload back. -/
  release : State → Option State
  /-- The pipe moves. -/
  own : State → Own → Option State
  /-- The line the pipe stands for. -/
  line : State → Line β
  /-- What the pipe keeps true. -/
  Good : State → Prop
  good_start : Good start
  line_start : line start = Line.empty
  fill_spec : ∀ {state payload next}, Good state → fill state payload = some next →
    Good next ∧ (line state).stage payload = some (line next)
  publish_spec : ∀ {state next}, Good state → publish state = some next →
    Good next ∧ (line state).publish = some (line next)
  take_spec : ∀ {state next}, Good state → take state = some next →
    Good next ∧ (line state).take = some (line next)
  release_spec : ∀ {state next}, Good state → release state = some next →
    Good next ∧ (line state).release = some (line next)
  own_spec : ∀ {state move next}, Good state → own state move = some next →
    Good next ∧ line next = line state
  peek_spec : ∀ {state k payload}, Good state → (line state).reading = true →
    (line state).taken = k + 1 → (line state).published[k]? = some payload →
      peek state payload.length = payload

namespace Pipe

variable {β : Type*}

/-- A move of one of the parties of a pipe, or of the pipe itself. -/
inductive Move (β ι : Type*)
  | fill (payload : List β)
  | publish
  | take
  | release
  | own (move : ι)

/-- The transition function of a pipe. -/
def step (pipe : Pipe β) (state : pipe.State) : Move β pipe.Own → Option pipe.State
  | .fill payload => pipe.fill state payload
  | .publish => pipe.publish state
  | .take => pipe.take state
  | .release => pipe.release state
  | .own move => pipe.own state move

/-- The transition function of a line, which has no moves of its own. -/
def lineStep {ι : Type*} (line : Line β) : Move β ι → Option (Line β)
  | .fill payload => line.stage payload
  | .publish => line.publish
  | .take => line.take
  | .release => line.release
  | .own _ => some line

theorem lineStep_ok {ι : Type*} {line after : Line β} {move : Move β ι} (ok : line.Ok)
    (taken : lineStep line move = some after) : after.Ok := by
  cases move with
  | fill payload =>
      obtain ⟨-, rfl⟩ := Line.stage_eq_some.mp taken
      exact ⟨ok.taken_le, ok.taken_pos⟩
  | publish =>
      obtain ⟨payload, -, rfl⟩ := Line.publish_eq_some.mp taken
      refine ⟨?_, ok.taken_pos⟩
      simp only [List.length_append, List.length_singleton]
      exact ok.taken_le.trans (Nat.le_succ _)
  | take =>
      obtain ⟨-, more, rfl⟩ := Line.take_eq_some.mp taken
      exact ⟨more, fun _ => Nat.succ_pos _⟩
  | release =>
      obtain ⟨-, rfl⟩ := Line.release_eq_some.mp taken
      exact ⟨ok.taken_le, fun busy => by simp at busy⟩
  | own move =>
      obtain rfl := Option.some.inj taken
      exact ok

variable {pipe : Pipe β} {state next : pipe.State}

/-- Every move of a pipe is the move of its line. -/
theorem step_refines {move : Move β pipe.Own} (good : pipe.Good state)
    (taken : pipe.step state move = some next) :
    pipe.Good next ∧ lineStep (pipe.line state) move = some (pipe.line next) := by
  cases move with
  | fill payload => exact pipe.fill_spec good taken
  | publish => exact pipe.publish_spec good taken
  | take => exact pipe.take_spec good taken
  | release => exact pipe.release_spec good taken
  | own move =>
      obtain ⟨kept, same⟩ := pipe.own_spec good taken
      exact ⟨kept, congrArg some same.symm⟩

/-- Every run of a pipe is a run of its line. -/
theorem exec_refines {moves : List (Move β pipe.Own)} (good : pipe.Good state)
    (execution : StepSystem.exec pipe.step state moves = some next) :
    pipe.Good next ∧ StepSystem.exec lineStep (pipe.line state) moves = some (pipe.line next) := by
  induction moves generalizing state with
  | nil =>
      obtain rfl : state = next := by simpa using execution
      exact ⟨good, rfl⟩
  | cons move moves ih =>
      rw [StepSystem.exec_cons] at execution
      obtain ⟨between, first, later⟩ := Option.bind_eq_some_iff.mp execution
      obtain ⟨kept, moved⟩ := step_refines good first
      obtain ⟨last, run⟩ := ih kept later
      exact ⟨last, by rw [StepSystem.exec_cons, moved, Option.bind_some, run]⟩

/-- Every run of a pipe is a run of a line, and the slot the consumer reads holds the payload that
was published at its place. -/
theorem run_refines (pipe : Pipe β) {moves : List (Move β pipe.Own)} {state : pipe.State}
    (execution : StepSystem.exec pipe.step pipe.start moves = some state) :
    StepSystem.exec lineStep Line.empty moves = some (pipe.line state) ∧
      ((pipe.line state).reading = true → ∃ k payload, (pipe.line state).taken = k + 1 ∧
        (pipe.line state).published[k]? = some payload ∧
          pipe.peek state payload.length = payload) := by
  obtain ⟨good, run⟩ := exec_refines pipe.good_start execution
  rw [pipe.line_start] at run
  refine ⟨run, fun busy => ?_⟩
  have ok : (pipe.line state).Ok :=
    StepSystem.Reachable.invariant Line.Ok (fun _ _ _ ok taken => lineStep_ok ok taken)
      Line.ok_empty ⟨moves, run⟩
  obtain ⟨k, payload, last, found⟩ := ok.exists_reading busy
  exact ⟨k, payload, last, found, pipe.peek_spec good busy last found⟩

/-! ### Slots -/

/-- The slots of a pipe. Its producer may write a payload without looking at the counter that says
which slots are released; with room behind that counter the write is the pipe's. -/
structure Slots (pipe : Pipe β) where
  /-- Steps the slots take. -/
  window : ℕ
  /-- Steps of a payload. -/
  width : ℕ
  /-- Step of the first payload. -/
  base : ℕ
  /-- Counter the producer publishes. -/
  tail : pipe.State → ℕ
  /-- Counter of the released slots. -/
  head : pipe.State → ℕ
  /-- The producer writes a payload into the slot of its tail, released or not. -/
  write : pipe.State → List β → Option pipe.State
  fill_eq : ∀ {state} payload, tail state + width ≤ head state + window →
    pipe.fill state payload = write state payload
  tail_eq : ∀ {state}, pipe.Good state →
    tail state = base + width * (pipe.line state).published.length
  head_le : ∀ {state next} move, pipe.Good state → pipe.step state move = some next →
    head state ≤ head next

namespace Slots

variable (slots : pipe.Slots)

/-- The transition function of a pipe whose producer writes released and unreleased slots. -/
def step (state : pipe.State) : Move β pipe.Own → Option pipe.State
  | .fill payload => slots.write state payload
  | .publish => pipe.publish state
  | .take => pipe.take state
  | .release => pipe.release state
  | .own move => pipe.own state move

/-- The published head leaves room for the slot a move writes. -/
def HasRoom (state : pipe.State) : Move β pipe.Own → Prop
  | .fill _ => slots.tail state + slots.width ≤ slots.head state + slots.window
  | _ => True

instance (state : pipe.State) (move : Move β pipe.Own) : Decidable (slots.HasRoom state move) :=
  match move with
  | .fill _ => inferInstanceAs (Decidable (_ ≤ _))
  | .publish | .take | .release | .own _ => inferInstanceAs (Decidable True)

variable {slots}

theorem step_eq {move : Move β pipe.Own} (room : slots.HasRoom state move) :
    slots.step state move = pipe.step state move := by
  cases move with
  | fill payload => exact (slots.fill_eq payload room).symm
  | publish | take | release | own => rfl

/-- A run whose writes all find room is a run of the pipe. -/
theorem exec_eq {moves : List (Move β pipe.Own)}
    (room : StepSystem.Along slots.step slots.HasRoom state moves) :
    StepSystem.exec slots.step state moves = StepSystem.exec pipe.step state moves := by
  induction moves generalizing state with
  | nil => rfl
  | cons move moves ih =>
      rw [StepSystem.exec_cons, StepSystem.exec_cons, ← step_eq room.1]
      cases taken : slots.step state move with
      | none => rfl
      | some next => exact ih (room.2 next taken)

end Slots

end Pipe
