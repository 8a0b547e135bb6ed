import NanoNccl.Rdma.RecvFailure
import NanoNccl.Rdma.SendFailure
import NanoNccl.Socket.ProxyFailure

/-!
# No proxy publishes a failed slice

The counters `send_head` and `recv_tail` of every proxy, whatever fails inside it and around it, and
whatever is called afterwards.
-/

namespace NanoNccl

open FailStop StepSystem

/-- A failed slice is never published: the published counter of each proxy takes the values
`initial + k * step_increment` in increasing order, passes only slices whose operation succeeded,
and is left alone after the first failure, as are the slot sizes. -/
theorem failed_slice_never_published (edge : Rdma.Edge) (elideZeroPayload : Bool)
    (link : Socket.Link) :
    FailSafe (Rdma.SendRecv.sendWorker edge) (Rdma.SendRecv.initial edge) .idle
      (fun state => state.sendFifo.head) (fun k => edge.base + k * edge.stepIncrement)
      (fun state k => state.SendDone edge k) (fun state => state.sendFifo.sizes)
      Rdma.SendRecv.SenderLabel.Quiet ∧
    FailSafe (Rdma.WriteCts.sendWorker edge) (Rdma.WriteCts.initial edge) .idle
      (fun state => state.sendFifo.head) (fun k => edge.base + k * edge.stepIncrement)
      (fun state k => state.SendDone edge k) (fun state => state.sendFifo.sizes)
      Rdma.WriteCts.SenderLabel.Quiet ∧
    FailSafe (Rdma.SendRecv.recvWorker edge elideZeroPayload) (Rdma.SendRecv.initialTraced edge)
      .preparing (fun state => state.eliding.core.recvFifo.tail)
      (fun k => edge.base + k * edge.stepIncrement)
      (fun state k => state.RecvDone edge elideZeroPayload k)
      (fun state => state.eliding.core.recvFifo.sizes) Rdma.SendRecv.ReceiverLabel.Quiet ∧
    FailSafe (Rdma.WriteCts.recvWorker edge) (Rdma.WriteCts.initial edge) .preparing
      (fun state => state.recvFifo.tail) (fun k => edge.base + k * edge.stepIncrement)
      (fun state k => state.RecvDone edge k) (fun state => state.recvFifo.sizes)
      (fun _ => True) ∧
    FailSafe (Socket.sendWorker link) (Socket.initialSend link) .idle
      (fun state => state.side.fifo.head) (fun k => link.base + k * link.stepIncrement)
      (fun state k => state.SendDone k) (fun state => state.side.fifo.sizes)
      Socket.SendEvent.Quiet ∧
    FailSafe (Socket.recvWorker link) (Socket.initialRecv link) .idle
      (fun state => state.side.fifo.tail) (fun k => link.base + k * link.stepIncrement)
      (fun state k => state.RecvDone link k) (fun state => state.side.fifo.sizes)
      (fun _ => True) :=
  ⟨Rdma.SendRecv.sendWorker_failSafe edge, Rdma.WriteCts.sendWorker_failSafe edge,
    Rdma.SendRecv.recvWorker_failSafe edge elideZeroPayload, Rdma.WriteCts.recvWorker_failSafe edge,
    Socket.sendWorker_failSafe link, Socket.recvWorker_failSafe link⟩

/-- Three SENDs whose two completions are polled together; the first one publishes a slice, the
second one reports a failure. -/
def failingBatch : List (FailStop.Label (Rdma.SendRecv.SenderLabel ⊕ ℕ)) :=
  List.flatten
    [[[5], [6], [7]].flatMap fun payload =>
        [.surroundings (.inl (.offer payload)), .surroundings (.inl .publish)],
      [.call], List.replicate 13 (.move (.inl .send)),
      List.replicate 3 (.surroundings (.inl .execute)),
      [.move (.inl (.poll 2)), .move (.inl .send), .failedCompletion, .caught]]

/-- After the failing batch one slice is published, and no sequence of events publishes another. -/
theorem failed_slice_never_published_batch :
    ∃ state, StepSystem.Reachable (FailStop.step (Rdma.SendRecv.sendWorker Rdma.communicatorEdge))
        (FailStop.initial (Rdma.SendRecv.initial Rdma.communicatorEdge) .idle) state ∧
      state.core.sendFifo.head = 2 ∧
      ∀ labels final, exec (FailStop.step (Rdma.SendRecv.sendWorker Rdma.communicatorEdge)) state
        labels = some final → final.core.sendFifo.head = 2 := by
  have run : (exec (FailStop.step (Rdma.SendRecv.sendWorker Rdma.communicatorEdge))
      (FailStop.initial (Rdma.SendRecv.initial Rdma.communicatorEdge) .idle) failingBatch).map
        (fun state => (state.core.sendFifo.head, state.failed)) = some (2, true) := by
    decide +kernel
  obtain ⟨state, execution, observed⟩ := Option.map_eq_some_iff.mp run
  obtain ⟨head, failed⟩ := Prod.mk.inj observed
  refine ⟨state, ⟨failingBatch, execution⟩, head, ?_⟩
  intro labels final later
  have safe := (failed_slice_never_published Rdma.communicatorEdge false
    ⟨1, 1, 1, 1, 1, 0, by decide, by decide, by decide, by decide, by decide, by decide⟩).1
  exact (safe.frozenCounter state labels final ⟨failingBatch, execution⟩ failed later).trans head

end NanoNccl
