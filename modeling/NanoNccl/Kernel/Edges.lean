import NanoNccl.Kernel.Tracking

/-!
# Edges stay in step

Over any sequence of launches the slices a block posts are, in order and in step number, the
slices its successor consumes, although the send and receive steps of one block drift apart.
-/

namespace NanoNccl

variable {α : Type*}

namespace KernelRing

variable {net : KernelRing α} {state : RingState α} {base : BlockId → ℕ} {id : BlockId}

/-- Empty slices never reach an edge. -/
theorem bytes_pos_of_sends {launch : Launch α} {entry : Entry α}
    (member : entry ∈ net.plan launch id) (sends : entry.op.prim.sends = true) :
    0 < entry.bytes := by
  simp only [plan, planEntries, passEntries, Round.entries, List.mem_flatMap, List.mem_map]
    at member
  obtain ⟨pass, -, p, -, ⟨⟨offset, work⟩, index⟩, found, rfl⟩ := member
  have slice := List.fst_mem_of_mem_zipIdx found
  unfold Round.cut at slice
  rw [if_neg (by rintro copies; simp [copies, Prim.sends] at sends)] at slice
  exact Nat.mul_pos ((mem_sliceLoop slice).1) launch.dtype.size_pos

theorem bytes_pos_outgoing_planFrom {start : ℕ} {launches : List (Launch α)}
    {slice : ℕ × ℕ × (ℕ → α)} (member : slice ∈ outgoing (net.planFrom id start launches)) :
    0 < slice.2.1 := by
  induction launches generalizing start with
  | nil => simp [planFrom] at member
  | cons launch launches ih =>
      rw [planFrom, outgoing_append, List.mem_append] at member
      rcases member with member | member
      · rw [outgoing_delayed] at member
        obtain ⟨early, found, rfl⟩ := List.mem_map.mp member
        obtain ⟨entry, planned, sends, rfl⟩ := mem_outgoing found
        exact bytes_pos_of_sends planned sends
      · exact ih member

theorem snd_mem_numbered {start : ℕ} {stream : List (ℕ × ℕ × (ℕ → α))} {slice : ℕ × ℕ}
    (member : slice ∈ numbered start stream) : ∃ original ∈ stream, slice.2 = original.2.1 := by
  obtain ⟨⟨original, index⟩, found, rfl⟩ := List.mem_map.mp member
  exact ⟨original, List.fst_mem_of_mem_zipIdx found, rfl⟩

/-- Slices posted on an edge and slices consumed from it. -/
theorem Tracked.consumed_prefix {doneLeft pendingLeft doneRight pendingRight : List (Entry α)}
    (left : Tracked net base state id doneLeft pendingLeft)
    (right : Tracked net base state (net.succ id) doneRight pendingRight)
    (leftOk : BlockOk net state id) (rightOk : BlockOk net state (net.succ id))
    (id_rank : id.1 < net.kRanks) (two : 2 ≤ net.kRanks) :
    state.consumed (net.succ id) <+: state.posted id := by
  have tail := leftOk.tail
  have head := rightOk.head
  have ordered := rightOk.received
  rw [pred_succ id_rank] at head ordered
  rw [left.posted, right.consumed, pred_succ id_rank, ← outgoing_wholePlan id_rank two]
  apply numbered_take_prefix
  rw [left.sendStep] at tail
  rw [right.recvStep, pred_succ id_rank] at head
  rw [tail, head] at ordered
  revert ordered
  cases (state.block (net.succ id)).slice.postedHead <;>
    cases (state.block id).slice.postedTail <;> simp [kSliceSteps] <;> omega

/-- Two neighbours that returned from the same launches have done the same slices. -/
theorem Tracked.length_done_eq {doneLeft doneRight : List (Entry α)}
    (left : Tracked net base state id doneLeft [])
    (right : Tracked net base state (net.succ id) doneRight [])
    (id_rank : id.1 < net.kRanks) (two : 2 ≤ net.kRanks)
    (together : state.started id.1 = state.started (net.succ id).1) :
    (outgoing doneLeft).length = (incoming doneRight).length := by
  have streams := congrArg List.length (outgoing_wholePlan id_rank two)
  have later := congrArg List.length (outgoing_future id_rank two (state.started id.1))
  rw [left.whole, right.whole, ← together] at streams
  simp only [outgoing_append, incoming_append, List.length_append, List.nil_append] at streams
  omega

/-! ## A rank whose own base steps differ -/

/-- AllReduce of one element on three ranks and one channel. -/
def driftRing : KernelRing ℕ where
  kRanks := 3
  kChannels := 1
  launches :=
    [{ kind := .allReduce, dtype := .float, redop := .sum, count := 1,
       input := fun rank _ => rank + 1 }]
  apply := fun _ left right => left + right
  scaleAvg := fun value => value

/-- Rank 1 starts the reduction, ranks 2 and 0 carry it on, and the result goes round. -/
def driftLabels : List RingLabel :=
  let act := fun rank => List.map (RingLabel.block (rank, 0))
  let reduce := [.pollTail, .waitRecv, .waitSend, .move, .postHead, .reduce, .postTail, .next]
  [.launch 0, .launch 1, .launch 2] ++ act 1 [.waitSend, .move, .postTail, .next] ++
    act 2 reduce ++ act 0 (reduce ++ [.ret]) ++
    act 1 [.pollTail, .waitRecv, .waitSend, .move, .postHead, .postTail, .next, .ret] ++
    act 2 [.pollTail, .waitRecv, .move, .postHead, .next, .ret]

/-- Initial state of `driftRing`. -/
def driftStart : RingState ℕ := driftRing.initial (fun _ => 0) (fun _ _ => 0) fun _ _ => 0

/-- Ranks 1 and 2 have returned, and the base steps of rank 1 differ. -/
def drifted (state : RingState ℕ) : Bool :=
  driftRing.idle state 1 ∧ driftRing.idle state 2 ∧ state.started 1 = 1 ∧ state.started 2 = 1 ∧
    (state.block (1, 0)).sendBase ≠ (state.block (1, 0)).recvBase

theorem exists_drifted : ∃ state,
    StepSystem.Reachable driftRing.step driftStart state ∧ drifted state = true := by
  have reached : (StepSystem.exec driftRing.step driftStart driftLabels).any drifted = true := by
    decide +kernel
  obtain ⟨state, execution, drift⟩ := (Option.any_eq_true _ _).mp reached
  exact ⟨state, ⟨driftLabels, execution⟩, drift⟩

/-- Both ends of every edge stay in step: what is consumed is a beginning of what was posted,
no posted slice is empty, and after each launch the two histories and the two base steps agree.
The base steps of one rank need not agree. -/
theorem edge_in_step (net : KernelRing α) (two : 2 ≤ net.kRanks) (base : BlockId → ℕ)
    (fifo : BlockId → ℕ → α) (output : ℕ × ℕ → ℕ → α) (state : RingState α)
    (reach : StepSystem.Reachable net.step (net.initial base fifo output) state)
    (id : BlockId) (id_rank : id.1 < net.kRanks) (id_channel : id.2 < net.kChannels) :
    state.consumed (net.succ id) <+: state.posted id ∧
      (∀ slice ∈ state.posted id, 0 < slice.2) ∧
      (state.started id.1 = state.started (net.succ id).1 → net.idle state id.1 →
        net.idle state (net.succ id).1 →
          state.posted id = state.consumed (net.succ id) ∧
            (state.block id).sendBase = (state.block (net.succ id)).recvBase) ∧
      ∃ state, StepSystem.Reachable driftRing.step driftStart state ∧ driftRing.idle state 1 ∧
        (state.block (1, 0)).sendBase ≠ (state.block (1, 0)).recvBase := by
  obtain ⟨control, tracked⟩ := tracked_reachable two reach
  have leftOk := control id id_rank id_channel
  have rightOk := control (net.succ id) (succ_lt id_rank) id_channel
  obtain ⟨doneLeft, pendingLeft, left⟩ := tracked id id_rank id_channel
  obtain ⟨doneRight, pendingRight, right⟩ := tracked (net.succ id) (succ_lt id_rank) id_channel
  refine ⟨left.consumed_prefix right leftOk rightOk id_rank two, ?_, ?_, ?_⟩
  · intro slice member
    rw [left.posted] at member
    obtain ⟨original, found, same⟩ := snd_mem_numbered member
    rw [same]
    exact bytes_pos_outgoing_planFrom (List.mem_of_mem_take found)
  · intro together leftIdle rightIdle
    obtain ⟨leftEmpty, leftBase, -⟩ := leftOk.returned (leftIdle id.2 id_channel)
    obtain ⟨rightEmpty, -, rightBase⟩ := rightOk.returned (rightIdle id.2 id_channel)
    obtain rfl := left.pending_nil leftEmpty
    obtain rfl := right.pending_nil rightEmpty
    have same := left.length_done_eq right id_rank two together
    constructor
    · rw [left.posted, right.consumed, pred_succ id_rank, ← outgoing_wholePlan id_rank two, same,
        leftOk.empty leftEmpty, rightOk.empty rightEmpty]
    · rw [← leftBase, ← rightBase, left.sendStep, right.recvStep, pred_succ id_rank, same]
  · obtain ⟨state, reach, drift⟩ := exists_drifted
    simp only [drifted, decide_eq_true_eq] at drift
    exact ⟨state, reach, drift.1, drift.2.2.2.2⟩

/-- The edge from rank 1 to rank 2 of the drifting ring. -/
theorem edge_in_step_drift : ∃ state, StepSystem.Reachable driftRing.step driftStart state ∧
    (state.block (1, 0)).sendBase = (state.block (2, 0)).recvBase ∧
    (state.block (1, 0)).sendBase ≠ (state.block (1, 0)).recvBase := by
  obtain ⟨state, reach, drift⟩ := exists_drifted
  simp only [drifted, decide_eq_true_eq] at drift
  obtain ⟨leftIdle, rightIdle, leftStarted, rightStarted, differ⟩ := drift
  have step := edge_in_step driftRing (by decide) (fun _ => 0) (fun _ _ => 0) (fun _ _ => 0) state
    reach (1, 0) (by decide) (by decide)
  have bases := (step.2.2.1 (leftStarted.trans rightStarted.symm) leftIdle rightIdle).2
  exact ⟨state, reach, bases, differ⟩

end KernelRing
end NanoNccl
