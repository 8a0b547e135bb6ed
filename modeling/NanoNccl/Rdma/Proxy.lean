import NanoNccl.Rdma.Fifo

/-!
# What the proxies of both data planes share

Selective completions: a completion of a signaled work request also completes the unsignaled ones
posted before it, since a reliable connection executes work requests in posting order.
-/

namespace NanoNccl.Rdma

/-- `kPollBatch`. -/
def kPollBatch : ℕ := 16

/-- `kSignalEvery`. -/
def kSignalEvery : ℕ := 4

/-- How a batch completion can be refused. -/
inductive CompletionError
  /-- The completion "has unexpected step". -/
  | unexpectedStep
  /-- The completion "advances past inflight". -/
  | pastInflight
  deriving DecidableEq, Repr

/-- Advance a completion counter through the step a completion names, together with the number of
work requests in flight. -/
def completeThrough (edge : Edge) (nextCompleteStep inflight completedThrough : ℕ) :
    Except CompletionError (ℕ × ℕ) :=
  if completedThrough < nextCompleteStep ∨
      (completedThrough - nextCompleteStep) % edge.stepIncrement ≠ 0 then
    .error .unexpectedStep
  else
    let advanced := (completedThrough - nextCompleteStep) / edge.stepIncrement + 1
    if inflight < advanced then .error .pastInflight
    else .ok (completedThrough + edge.stepIncrement, inflight - advanced)

theorem completeThrough_ok {edge : Edge} {nextCompleteStep inflight completedThrough : ℕ}
    {result : ℕ × ℕ}
    (accepted : completeThrough edge nextCompleteStep inflight completedThrough = .ok result) :
    nextCompleteStep ≤ completedThrough ∧ result.1 = completedThrough + edge.stepIncrement := by
  unfold completeThrough at accepted
  dsimp only at accepted
  split_ifs at accepted with refused
  obtain rfl := Except.ok.inj accepted
  push Not at refused
  exact ⟨refused.1, rfl⟩

/-- The completions of a send queue are those of executed work requests. -/
def Edge.CompletesExecuted (edge : Edge) (executed : ℕ) (sendCq : List ℕ) : Prop :=
  ∀ wrId ∈ sendCq, ∃ k < executed, wrId = edge.step k

/-- Executing the next work request adds its completion when it is signaled. -/
theorem Edge.CompletesExecuted.execute {edge : Edge} {executed : ℕ} {sendCq : List ℕ}
    (completes : edge.CompletesExecuted executed sendCq) (signaled : Bool) :
    edge.CompletesExecuted (executed + 1)
      (if signaled then sendCq ++ [edge.step executed] else sendCq) := by
  have older : edge.CompletesExecuted (executed + 1) sendCq := by
    intro wrId member
    obtain ⟨k, before, same⟩ := completes wrId member
    exact ⟨k, before.trans (Nat.lt_succ_self _), same⟩
  intro wrId member
  split_ifs at member
  · rcases List.mem_append.mp member with old | new
    · exact older wrId old
    · exact ⟨executed, Nat.lt_succ_self _, List.mem_singleton.mp new⟩
  · exact older wrId member

/-- An accepted completion releases executed slices to the producer. -/
theorem SendFifo.Holds.complete {edge : Edge} {fifo : SendFifo} {completed executed : ℕ}
    (holds : fifo.Holds edge completed) (executed_le : executed ≤ fifo.published.length)
    {inflight wrId : ℕ} {later : List ℕ}
    (completes : edge.CompletesExecuted executed (wrId :: later))
    {result : ℕ × ℕ}
    (accepted : completeThrough edge (edge.step completed) inflight wrId = .ok result) :
    ∃ more ≤ executed, result.1 = edge.step more ∧
      { fifo with head := result.1 }.Holds edge more ∧ edge.CompletesExecuted executed later := by
  obtain ⟨k, inside, rfl⟩ := completes wrId List.mem_cons_self
  obtain ⟨forward, next⟩ := completeThrough_ok accepted
  rw [edge.step_succ] at next
  rw [edge.step_le_step] at forward
  refine ⟨k + 1, inside, next, ?_, fun id member => completes id (List.mem_cons_of_mem _ member)⟩
  rw [next]
  exact holds.release (by omega) (by omega)

/-- Whether a data work request is signaled, from the tail loaded for it. -/
def signalsData (edge : Edge) (inflight tail postStep : ℕ) (nextZeroNeedsHead : Bool) : Bool :=
  decide (edge.maxInflight ≤ inflight + 1) || !decide (postStep + edge.stepIncrement < tail) ||
    nextZeroNeedsHead || decide (postStep / edge.stepIncrement % kSignalEvery = 0)

/-- Byte order reversal of a 32-bit number, which both `htobe32` and `be32toh` are on the
little-endian hosts of the proxies. -/
def swapBytes32 (value : ℕ) : ℕ :=
  value % 2 ^ 8 * 2 ^ 24 + value / 2 ^ 8 % 2 ^ 8 * 2 ^ 16 + value / 2 ^ 16 % 2 ^ 8 * 2 ^ 8 +
    value / 2 ^ 24 % 2 ^ 8

theorem swapBytes32_bytes {first second third fourth : ℕ} (first_lt : first < 2 ^ 8)
    (second_lt : second < 2 ^ 8) (third_lt : third < 2 ^ 8) (fourth_lt : fourth < 2 ^ 8) :
    swapBytes32 (first + second * 2 ^ 8 + third * 2 ^ 16 + fourth * 2 ^ 24) =
      fourth + third * 2 ^ 8 + second * 2 ^ 16 + first * 2 ^ 24 := by
  unfold swapBytes32
  omega

theorem swapBytes32_swapBytes32 {value : ℕ} (short : value < 2 ^ 32) :
    swapBytes32 (swapBytes32 value) = value := by
  obtain ⟨first, second, third, fourth, first_lt, second_lt, third_lt, fourth_lt, rfl⟩ :
      ∃ first second third fourth, first < 2 ^ 8 ∧ second < 2 ^ 8 ∧ third < 2 ^ 8 ∧
        fourth < 2 ^ 8 ∧
          value = first + second * 2 ^ 8 + third * 2 ^ 16 + fourth * 2 ^ 24 := by
    refine ⟨value % 2 ^ 8, value / 2 ^ 8 % 2 ^ 8, value / 2 ^ 16 % 2 ^ 8, value / 2 ^ 24, ?_⟩
    omega
  rw [swapBytes32_bytes first_lt second_lt third_lt fourth_lt,
    swapBytes32_bytes fourth_lt third_lt second_lt first_lt]

end NanoNccl.Rdma
