import NanoNccl.Kernel.Control

/-!
# Send credit across launches

A kernel seeds `send_head_cache` with its own base step and reads the published head only when
the cache runs out. The seed is a promise that the consumer has released every slice of the
earlier launches. The promise is kept when, at each launch, the published head leaves room for
the slices the launch may send on the seed alone; a ring of three ranks breaks it.
-/

namespace NanoNccl
namespace KernelRing

variable {α : Type*} {net : KernelRing α} {state state' : RingState α}

/-- Number of slices a list of slice operations sends. -/
def sendCount (ops : List SliceOp) : ℕ := (ops.filter (·.prim.sends)).length

/-- The step writes a slice into the send FIFO of its block: the first pass of a sending slice
operation, or the second pass over a small one. -/
def WritesSlot (state : RingState α) (id : BlockId) (action : Action) : Prop :=
  (action = .move ∨ action = .reduce) ∧
    ∃ op rest, (state.block id).ops = op :: rest ∧ op.prim.sends = true

/-- The slot of the block's current step holds no slice its consumer has not released. -/
def SlotFree (state : RingState α) (id : BlockId) : Prop :=
  (state.block id).sendStep + kSliceSteps ≤ state.head id + kFifoSteps

/-- A launch starts on this rank only where the published heads cover the seeded caches: on each
channel the launch works on, the slices it may send before it reads the head again, at most one
FIFO of them, fit behind the head already published. -/
def SeedCovered (net : KernelRing α) (state : RingState α) : RingLabel → Prop
  | .block _ _ => True
  | .launch rank =>
      ∀ launch, net.launches[state.started rank]? = some launch →
        ∀ channel < net.kChannels, net.emptyShare launch channel = false →
          (state.block (rank, channel)).sendBase +
              min (kSliceSteps * sendCount (net.ops launch (rank, channel))) kFifoSteps ≤
            state.head (rank, channel) + kFifoSteps

instance (net : KernelRing α) (state : RingState α) (label : RingLabel) :
    Decidable (net.SeedCovered state label) :=
  match label with
  | .block _ _ => inferInstanceAs (Decidable True)
  | .launch rank =>
      inferInstanceAs (Decidable (∀ launch ∈ net.launches[state.started rank]?, _))

/-- The cached head is published, or the rest of the launch fits behind the published head. -/
def CacheCovered (net : KernelRing α) (state : RingState α) : Prop :=
  ∀ id : BlockId, id.1 < net.kRanks → id.2 < net.kChannels → (state.block id).live = true →
    (state.block id).sendHeadCache ≤ state.head id ∨
      (state.block id).sendStep + kSliceSteps * sendCount (state.block id).ops ≤
        state.head id + kFifoSteps

theorem sendCount_cons (op : SliceOp) (rest : List SliceOp) :
    sendCount (op :: rest) = (if op.prim.sends then 1 else 0) + sendCount rest := by
  unfold sendCount
  cases sends : op.prim.sends <;> simp [sends, Nat.add_comm]

theorem cacheCovered_perform {id : BlockId} {launch : Launch α} {op : SliceOp}
    {rest : List SliceOp} {action : Action} (control : Control net state)
    (covered : CacheCovered net state) (id_rank : id.1 < net.kRanks)
    (id_channel : id.2 < net.kChannels) (live : (state.block id).live = true)
    (queue : (state.block id).ops = op :: rest)
    (enabled : guard launch (state.block id) op action = true) :
    CacheCovered net (net.perform launch state id (state.block id) op rest action) := by
  intro other other_rank other_channel other_live
  have heads := head_le_perform (control id id_rank id_channel) enabled rest other
  rw [perform_block] at other_live ⊢
  by_cases same : other = id
  · subst same
    rw [Function.update_self] at other_live ⊢
    have before := covered other id_rank id_channel live
    have counted := sendCount_cons op rest
    rw [queue] at before
    cases action <;> simp only [act]
    case pollHead => exact .inl heads
    case next =>
      cases sends : op.prim.sends <;> simp [sends, kSliceSteps] at counted before ⊢ <;> omega
    all_goals
      rw [queue]
      omega
  · rw [Function.update_of_ne same] at other_live ⊢
    have before := covered other other_rank other_channel other_live
    omega

theorem cacheCovered_step {label : RingLabel} (control : Control net state)
    (covered : CacheCovered net state) (seeded : net.SeedCovered state label)
    (stepped : net.step state label = some state') : CacheCovered net state' := by
  cases label with
  | launch rank =>
      obtain ⟨launch, found, rank_lt, idle, rfl⟩ := step_launch stepped
      intro id id_rank id_channel id_live
      by_cases entering : id.1 = rank
      · obtain ⟨idRank, channel⟩ := id
        obtain rfl : idRank = rank := entering
        simp only [id_channel, and_self, if_true, enter] at id_live ⊢
        have resting := idle channel id_channel
        cases share : net.emptyShare launch channel with
        | true => simp [share, resting] at id_live
        | false =>
            -- The seed is either below the published head or covers the whole launch.
            have room := seeded launch found channel id_channel share
            simp only [Bool.false_eq_true, if_false]
            omega
      · simp only [entering, false_and, if_false] at id_live ⊢
        exact covered id id_rank id_channel id_live
  | block id action =>
      obtain ⟨id_rank, id_channel, live, launch, found, finished | continued⟩ :=
        step_block stepped
      · obtain ⟨finished, -, rfl⟩ := finished
        intro other other_rank other_channel other_live
        by_cases same : other = id
        · subst same
          simp [retire] at other_live
        · simp only [Function.update_of_ne same] at other_live ⊢
          exact covered other other_rank other_channel other_live
      · obtain ⟨op, rest, queue, enabled, rfl⟩ := continued
        exact cacheCovered_perform control covered id_rank id_channel live queue enabled

theorem slotFree_of_covered {id : BlockId} {action : Action} (control : Control net state)
    (covered : CacheCovered net state)
    (stepped : net.step state (.block id action) = some state')
    (writing : WritesSlot state id action) : SlotFree state id := by
  obtain ⟨id_rank, id_channel, live, launch, found, finished | continued⟩ := step_block stepped
  · obtain ⟨-, op, rest, queue, -⟩ := writing
    simp [finished.1] at queue
  · obtain ⟨op, rest, queue, enabled, -⟩ := continued
    obtain ⟨passes, op', rest', queue', sends⟩ := writing
    obtain ⟨rfl, rfl⟩ : op = op' ∧ rest = rest' := by simpa [queue] using queue'
    have ok := control id id_rank id_channel
    have flags := ok.slice launch op rest found queue
    have waited : (state.block id).slice.waitedSend = true := by
      rcases passes with rfl | rfl
      · simp only [guard, Bool.and_eq_true, Bool.or_eq_true, Bool.not_eq_true'] at enabled
        simpa [sends] using enabled.1.2
      · simp only [guard, Bool.and_eq_true, Bool.not_eq_true'] at enabled
        exact flags.moved_send enabled.1.2 sends
    have credit := ok.waitedSend waited
    have counted := sendCount_cons op rest
    have before := covered id id_rank id_channel live
    rw [queue, counted, sends] at before
    simp only [if_true] at before
    unfold SlotFree
    simp only [kSliceSteps, kFifoSteps] at credit before ⊢
    omega

/-! ## Two launches on three ranks -/

/-- Two AllGather launches of two slices per rank on three ranks and one channel. -/
def overrunRing : KernelRing ℕ where
  kRanks := 3
  kChannels := 1
  launches := List.replicate 2
    { kind := .allGather, dtype := .float, redop := .sum, count := 131072, input := fun _ _ => 0 }
  apply := fun _ left right => left + right
  scaleAvg := id

/-- A direct send of one slice. -/
def sendActions : List Action := [.waitSend, .move, .postTail, .next]

/-- A received slice stored and forwarded. -/
def forwardActions : List Action := [.waitRecv, .waitSend, .move, .postHead, .postTail, .next]

/-- A received slice stored. -/
def recvActions : List Action := [.waitRecv, .move, .postHead, .next]

/-- Rank 1 only sends its own chunk, rank 2 forwards it, and rank 0 runs its whole launch. -/
def overrunLabels : List RingLabel :=
  let act := fun rank => List.map (RingLabel.block (rank, 0))
  let own := [.move, .next] ++ sendActions ++ sendActions
  [.launch 0, .launch 1, .launch 2] ++ act 1 own ++ act 2 own ++
    act 2 (.pollTail :: forwardActions ++ forwardActions) ++ act 0 own ++
    act 0 (.pollTail :: forwardActions ++ forwardActions) ++
    act 0 (recvActions ++ recvActions ++ [.ret]) ++
    [.launch 0] ++ act 0 [.move, .next, .waitSend]

instance (state : RingState α) (id : BlockId) : Decidable (SlotFree state id) :=
  inferInstanceAs (Decidable (_ ≤ _))

/-- Every run from zero counters only writes free slots. -/
def FifoSafe (net : KernelRing α) : Prop :=
  ∀ (fifo : BlockId → ℕ → α) (output : ℕ × ℕ → ℕ → α) (labels : List RingLabel)
    (state state' : RingState α) (id : BlockId) (action : Action),
    StepSystem.exec net.step (net.initial (fun _ => 0) fifo output) labels = some state →
      net.step state (.block id action) = some state' → WritesSlot state id action →
        SlotFree state id

/-- State of `overrunRing` after some labels. -/
def overrunAfter (labels : List RingLabel) : Option (RingState ℕ) :=
  StepSystem.exec overrunRing.step
    (overrunRing.initial (fun _ => 0) (fun _ _ => 0) fun _ _ => 0) labels

/-- Rank 0 is about to write a slice, into a slot that is free or not as `free` says. -/
def aboutToWrite (free : Bool) (state : RingState ℕ) : Bool :=
  (overrunRing.step state (.block (0, 0) .move)).isSome &&
    (state.block (0, 0)).ops.head?.any (·.prim.sends) && (SlotFree state (0, 0) = free : Bool)

theorem aboutToWrite_spec {free : Bool} {state : RingState ℕ}
    (about : aboutToWrite free state = true) :
    (∃ state', overrunRing.step state (.block (0, 0) .move) = some state') ∧
      WritesSlot state (0, 0) .move ∧ (SlotFree state (0, 0) ↔ free = true) := by
  simp only [aboutToWrite, Bool.and_eq_true, decide_eq_true_eq] at about
  obtain ⟨⟨enabled, sends⟩, slot⟩ := about
  refine ⟨Option.isSome_iff_exists.mp enabled, ⟨.inl rfl, ?_⟩, by rw [slot]⟩
  cases queue : (state.block (0, 0)).ops with
  | nil => simp [queue] at sends
  | cons op rest => exact ⟨op, rest, rfl, by simpa [queue] using sends⟩

/-! ## Slots along a run -/

/-- Slots are never overwritten before they are released, in every run whose launches all start
with their seeded caches covered. -/
theorem slotFree_of_seedCovered (net : KernelRing α) (fifo : BlockId → ℕ → α)
    (output : ℕ × ℕ → ℕ → α) (labels : List RingLabel) (state state' : RingState α)
    (execution : StepSystem.exec net.step (net.initial (fun _ => 0) fifo output) labels =
      some state)
    (seeded : StepSystem.Along net.step net.SeedCovered
      (net.initial (fun _ => 0) fifo output) labels)
    (id : BlockId) (action : Action)
    (stepped : net.step state (.block id action) = some state')
    (writing : WritesSlot state id action) : SlotFree state id := by
  have invariant : Control net state ∧ CacheCovered net state := by
    refine StepSystem.exec_invariant_along
      (fun state => Control net state ∧ CacheCovered net state) ?_ ?_ seeded execution
    · intro before label after inv condition stepped
      exact ⟨control_step inv.1 stepped, cacheCovered_step inv.1 inv.2 condition stepped⟩
    · refine ⟨control_initial _ _ _, ?_⟩
      intro id _ _ live
      simp [initial] at live
  exact slotFree_of_covered invariant.1 invariant.2 stepped writing

/-- The three ranks finish their first launch, and rank 0 waits for credit in its second one. -/
def drainedLabels : List RingLabel :=
  let act := fun rank => List.map (RingLabel.block (rank, 0))
  let own := [.move, .next] ++ sendActions ++ sendActions
  let forward := .pollTail :: forwardActions ++ forwardActions
  [.launch 0, .launch 1, .launch 2] ++ act 1 own ++ act 2 own ++ act 2 forward ++ act 0 own ++
    act 0 forward ++ act 0 (recvActions ++ recvActions ++ [.ret]) ++
    act 1 (forward ++ recvActions ++ recvActions ++ [.ret]) ++
    act 2 (.pollTail :: recvActions ++ recvActions ++ [.ret]) ++
    [.launch 0] ++ act 0 [.move, .next, .waitSend]

/-- The first send of the second launch of rank 0, whose FIFO its consumer has emptied: step 8 goes
into the slot step 0 lay in. -/
theorem slotFree_of_seedCovered_secondLaunch :
    ∃ state, overrunAfter drainedLabels = some state ∧ state.started 0 = 2 ∧
      (state.block (0, 0)).sendStep = 8 ∧ SlotFree state (0, 0) := by
  have reached : (overrunAfter drainedLabels).any (fun state =>
      aboutToWrite true state && (state.started 0 == 2 &&
        (state.block (0, 0)).sendStep == 8)) = true := by
    decide +kernel
  obtain ⟨state, execution, seen⟩ := (Option.any_eq_true _ _).mp reached
  simp only [Bool.and_eq_true, beq_iff_eq] at seen
  obtain ⟨about, second, eighth⟩ := seen
  obtain ⟨⟨state', stepped⟩, writing, -⟩ := aboutToWrite_spec about
  have covered : StepSystem.Along overrunRing.step overrunRing.SeedCovered
      (overrunRing.initial (fun _ => 0) (fun _ _ => 0) fun _ _ => 0) drainedLabels := by
    have checked : StepSystem.checkAlong overrunRing.step
        (fun state label => decide (overrunRing.SeedCovered state label))
        (overrunRing.initial (fun _ => 0) (fun _ _ => 0) fun _ _ => 0) drainedLabels = true := by
      decide +kernel
    exact StepSystem.along_of_checkAlong (fun _ _ => of_decide_eq_true) checked
  exact ⟨state, execution, second, eighth, slotFree_of_seedCovered overrunRing _ _ _ state state'
    execution covered (0, 0) .move stepped writing⟩

/-- The second AllGather of rank 0 writes over a slice rank 1 has not read. -/
theorem overrunRing_not_fifoSafe : ¬ FifoSafe overrunRing := by
  intro safe
  have reached : (overrunAfter overrunLabels).any (aboutToWrite false) = true := by
    decide +kernel
  obtain ⟨state, execution, about⟩ := (Option.any_eq_true _ _).mp reached
  obtain ⟨⟨state', stepped⟩, writing, slot⟩ := aboutToWrite_spec about
  have free := safe _ _ _ _ _ _ _ execution stepped writing
  simp [slot] at free

end KernelRing
end NanoNccl
