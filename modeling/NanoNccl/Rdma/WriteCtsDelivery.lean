import NanoNccl.Rdma.WriteCtsInvariant

/-!
# Safe and ordered delivery over WRITE+CTS

Slices land only in free slots, the consumer reads the published slices in order, and the
consistency checks of the proxies never fire. The check of the CTS target is the exception: the
slot capacity travels in a 32-bit field, so it fires for a payload above the capacity modulo `2³²`
once a slot is as large as `2³²` bytes.
-/

namespace NanoNccl.Rdma.WriteCts

/-- Delivery at one state: where data lands, what the consumer has read, and the checks that hold
for every slot size. -/
structure SafeDelivery (edge : Edge) (state : State) : Prop where
  /-- The data of step `s` lands in slot `s % slot_count`, and only when `recv_head` covers it. -/
  landing : ∀ next, executeWrite state = some next →
    ∃ wr, state.writes[state.executed]? = some wr ∧ wr.length ≤ edge.slotBytes ∧
      wr.remoteAddr = edge.recvAddr (wr.wrId % edge.slotCount) ∧
      wr.wrId + edge.stepIncrement ≤ state.recvFifo.head + edge.slotCount
  /-- The slices read are the slices published, in order. -/
  inOrder : ∀ (k : ℕ) (slice : List UInt8), state.recvFifo.consumed[k]? = some slice →
    state.sendFifo.published[k]? = some slice
  /-- The CTS tag is the one expected. -/
  stepTag : state.sender.pc ≠ .failed .stepTagMismatch
  /-- Data completions come in order. -/
  immStep : state.receiver.pc ≠ .failed .unexpectedImmStep
  /-- The immediate data is a size within the slot. -/
  immPayload : state.receiver.pc ≠ .failed .immPayloadExceedsCapacity

theorem Inv.landing {edge : Edge} {state next : State} {completed tailed released : ℕ}
    (inv : Inv edge state completed tailed released)
    (executes : WriteCts.executeWrite state = some next) :
    ∃ wr, state.writes[state.executed]? = some wr ∧ wr.length ≤ edge.slotBytes ∧
      wr.remoteAddr = edge.recvAddr (wr.wrId % edge.slotCount) ∧
      wr.wrId + edge.stepIncrement ≤ state.recvFifo.head + edge.slotCount := by
  unfold WriteCts.executeWrite at executes
  split at executes
  case h_2 => cases executes
  case h_1 wr recvWrId posted waiting =>
    have pending : state.executed < state.writes.length := (List.getElem?_eq_some_iff.mp posted).1
    obtain ⟨wrId, remoteAddr, slice, published, length, -, -⟩ := inv.executed_slice posted
    refine ⟨wr, posted, ?_, ?_, ?_⟩
    · rw [length]
      exact (inv.sendFifo.publishable slice (List.mem_of_getElem? published)).2.1
    · rw [remoteAddr, wrId]
      rfl
    · rw [wrId, inv.recvFifo.head, edge.credit_iff]
      exact inv.executed_room pending

/-- Delivery is safe and in order in every reachable state, and no CTS target is refused while
slots are smaller than `2³²` bytes. -/
theorem writeCts_delivery {edge : Edge} {state : State} (reach : Reachable edge state) :
    SafeDelivery edge state ∧
      (edge.slotBytes < 2 ^ 32 → state.sender.pc ≠ .failed .targetInvalid) := by
  obtain ⟨completed, tailed, released, inv⟩ := reach.good
  have sender := inv.sender
  have receiver := inv.receiver
  refine ⟨{ landing := fun next => inv.landing, inOrder := ?_, stepTag := ?_, immStep := ?_,
            immPayload := ?_ }, ?_⟩
  · intro k slice read
    exact Queue.get_of_prefix inv.recvFifo.consumed_prefix read
  · intro failed
    simp [SendOk, failed] at sender
  · intro failed
    simp [RecvOk, failed] at receiver
  · intro failed
    simp [RecvOk, failed] at receiver
  · intro narrow failed
    simp only [SendOk, failed] at sender
    exact absurd (sender.2 trivial) (Nat.not_le.mpr narrow)

/-- All slots are prepared and credited, and one slice travels from the producer to the consumer
while the next one is posted. -/
def twoSlices : List Label :=
  List.flatten
    [List.replicate 22 .recv, List.replicate 4 .deliverCts, List.replicate 4 .ackCts,
      [.fill [5, 6], .publish], List.replicate 8 .send,
      [.fill [7], .publish, .executeWrite, .recv, .recv, .pollRecv 3], List.replicate 4 .recv,
      [.read, .release], List.replicate 7 .send]

theorem writeCts_delivery_twoSlices :
    ∃ state, Reachable communicatorEdge state ∧ state.recvFifo.consumed = [[5, 6]] ∧
      state.writes.length = 2 ∧ SafeDelivery communicatorEdge state ∧
      state.sender.pc ≠ .failed .targetInvalid := by
  have run : (StepSystem.exec (step communicatorEdge) (initial communicatorEdge) twoSlices).map
      (fun state => (state.recvFifo.consumed, state.writes.length)) = some ([[5, 6]], 2) := by
    decide +kernel
  obtain ⟨state, execution, seen⟩ := Option.map_eq_some_iff.mp run
  have reach : Reachable communicatorEdge state := ⟨twoSlices, execution⟩
  obtain ⟨consumed, posted⟩ := Prod.mk.inj seen
  have safe := writeCts_delivery reach
  exact ⟨state, reach, consumed, posted, safe.1, safe.2 (by decide)⟩

/-- The communicator's edge with slots of `2³² + 16` bytes. -/
def wideEdge : Edge :=
  { communicatorEdge with
    slotBytes := 2 ^ 32 + 16
    slotBytes_pos := by decide
    fits := by decide }

/-- A payload of 17 bytes meets a capacity of 16. -/
def wideRun : List Label :=
  List.flatten
    [List.replicate 22 .recv, [.deliverCts, .fill (List.replicate 17 0), .publish],
      List.replicate 5 .send]

theorem wideEdge_targetInvalid :
    ¬ ∀ (edge : Edge) (state : State), Reachable edge state →
      SafeDelivery edge state ∧ state.sender.pc ≠ .failed .targetInvalid := by
  intro safe
  have run : (StepSystem.exec (step wideEdge) (initial wideEdge) wideRun).map
      (fun state => state.sender.pc) = some (.failed .targetInvalid) := by
    decide +kernel
  obtain ⟨state, execution, failed⟩ := Option.map_eq_some_iff.mp run
  exact (safe wideEdge state ⟨wideRun, execution⟩).2 failed

end NanoNccl.Rdma.WriteCts
