import NanoNccl.Rdma.Pipes
import NanoNccl.Socket.Pipe
import NanoNccl.Transport.DirectFifo

/-!
# The services of an edge

An edge of the ring is served by a FIFO in memory both kernels address, by a TCP connection, or by
an RDMA queue pair in one of its two planes. Whatever serves it, its two kernels see one line, as
long as the producer only writes slots for which the published head leaves room.
-/

namespace NanoNccl

/-- What serves an edge. -/
inductive Service
  /-- Shared memory or peer-to-peer access, with slots of so many bytes. -/
  | direct (slotBytes base : ℕ)
  /-- The socket proxies. -/
  | socket (link : Socket.Link)
  /-- The RDMA proxies over SEND/RECV. -/
  | sendRecv (edge : Rdma.Edge)
  /-- The RDMA proxies over WRITE+CTS. -/
  | writeCts (edge : Rdma.Edge)

/-- The pipe an edge is. -/
def Service.pipe : Service → Pipe UInt8
  | .direct slotBytes base => Direct.pipe slotBytes base
  | .socket link => Socket.pipe link
  | .sendRecv edge => Rdma.SendRecv.pipe edge
  | .writeCts edge => Rdma.WriteCts.pipe edge

/-- The slots of its send FIFO. -/
def Service.slots : (service : Service) → service.pipe.Slots
  | .direct slotBytes base => Direct.slots slotBytes base
  | .socket link => Socket.slots link
  | .sendRecv edge => Rdma.SendRecv.slots edge
  | .writeCts edge => Rdma.WriteCts.slots edge

/-- Every interleaving of the two kernels of an edge with its proxies and its network is a run of
the same line, whatever serves the edge, as long as the producer only writes slots for which the
published head leaves room. -/
theorem service_refines_line (service : Service)
    (moves : List (Pipe.Move UInt8 service.pipe.Own)) (state : service.pipe.State)
    (room : StepSystem.Along service.slots.step service.slots.HasRoom service.pipe.start moves)
    (execution : StepSystem.exec service.slots.step service.pipe.start moves = some state) :
    StepSystem.exec Pipe.lineStep Line.empty moves = some (service.pipe.line state) ∧
      ((service.pipe.line state).reading = true → ∃ k payload,
        (service.pipe.line state).taken = k + 1 ∧
          (service.pipe.line state).published[k]? = some payload ∧
            service.pipe.peek state payload.length = payload) :=
  service.pipe.run_refines ((Pipe.Slots.exec_eq room).symm.trans execution)

/-- Five slices over WRITE+CTS, up to the consumer's read of the fifth. The fifth lies in the slot
of the first, which the producer writes again once the WRITE of the first has completed. -/
def fiveSlices : List (Pipe.Move UInt8 Rdma.WriteCts.Own) :=
  let proxies := List.map (@Pipe.Move.own UInt8 Rdma.WriteCts.Own)
  let recv := fun count => List.replicate count Rdma.WriteCts.Own.recv
  let send := fun count => List.replicate count Rdma.WriteCts.Own.send
  let sent : List Rdma.WriteCts.Own := [.executeWrite, .pollRecv 1, .recv, .recv]
  let slice := proxies (send 8 ++ sent) ++ [.take, .release] ++
    proxies (recv 4 ++ [.deliverCts, .ackCts] ++ recv 4 ++ [.pollRecv 1] ++ recv 4)
  List.flatten
    [[.fill [1, 6], .publish, .fill [2, 6], .publish],
      [.fill [3, 6], .publish, .fill [4, 6], .publish],
      proxies (recv 9 ++ (List.replicate 4 (recv 3 ++ [.deliverCts, .ackCts])).flatten ++ recv 3 ++
        [.pollRecv 2] ++ recv 5),
      (List.replicate 4 slice).flatten, proxies [.send, .pollSend 1, .send],
      [.fill [5, 6], .publish], proxies (send 9 ++ sent), [.take]]

theorem service_refines_line_writeCts : ∃ state : Rdma.WriteCts.State,
    StepSystem.exec (Rdma.WriteCts.slots Rdma.communicatorEdge).step
        (Rdma.WriteCts.initial Rdma.communicatorEdge) fiveSlices = some state ∧
      state.line = ⟨[[1, 6], [2, 6], [3, 6], [4, 6], [5, 6]], none, 5, true⟩ ∧
        state.recvFifo.peek Rdma.communicatorEdge 2 = [5, 6] := by
  have run : (StepSystem.exec (Rdma.WriteCts.slots Rdma.communicatorEdge).step
      (Rdma.WriteCts.initial Rdma.communicatorEdge) fiveSlices).map Rdma.WriteCts.State.line =
        some ⟨[[1, 6], [2, 6], [3, 6], [4, 6], [5, 6]], none, 5, true⟩ := by
    decide +kernel
  have checked : StepSystem.checkAlong (Rdma.WriteCts.slots Rdma.communicatorEdge).step
      (fun state move => decide ((Rdma.WriteCts.slots Rdma.communicatorEdge).HasRoom state move))
      (Rdma.WriteCts.initial Rdma.communicatorEdge) fiveSlices = true := by
    decide +kernel
  obtain ⟨state, execution, seen⟩ := Option.map_eq_some_iff.mp run
  obtain ⟨-, reads⟩ := service_refines_line (.writeCts Rdma.communicatorEdge) fiveSlices state
    (StepSystem.along_of_checkAlong (fun _ _ => of_decide_eq_true) checked) execution
  obtain ⟨k, payload, last, found, peeked⟩ := reads (congrArg Line.reading seen)
  obtain rfl : 4 = k := Nat.succ.inj ((congrArg Line.taken seen).symm.trans last)
  have fifth : [5, 6] = payload := by
    have published := (congrArg (·.published[4]?) seen).symm.trans found
    exact Option.some.inj published
  subst fifth
  exact ⟨state, execution, seen, peeked⟩

end NanoNccl
