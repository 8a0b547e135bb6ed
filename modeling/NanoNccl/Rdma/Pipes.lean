import NanoNccl.Lib.Pipe
import NanoNccl.Rdma.SendRecvDelivery
import NanoNccl.Rdma.WriteCtsDelivery

/-!
# RDMA edges as pipes

The producer and the consumer of an RDMA edge see the same line over both data planes: the slices
the producer has published and the ones the consumer has read. No move of the proxies or of the
network changes it.
-/

namespace NanoNccl.Rdma

/-- The line between the producer of a send FIFO and the consumer of a receive FIFO. -/
def lineOf (sendFifo : SendFifo) (recvFifo : RecvFifo) : Line UInt8 where
  published := sendFifo.published
  staged := sendFifo.staged
  taken := recvFifo.consumed.length
  reading := recvFifo.reading

/-- First bytes of the slot at `recv_head`. -/
def RecvFifo.peek (edge : Edge) (fifo : RecvFifo) (len : ℕ) : List UInt8 :=
  Memory.block fifo.data (edge.recvAddr (edge.slot fifo.head)) len

section

variable {edge : Edge} {sendFifo sendNext : SendFifo} {recvFifo recvNext : RecvFifo}

theorem lineOf_fill {payload : List UInt8}
    (filled : sendFifo.fill edge payload = some sendNext) :
    (lineOf sendFifo recvFifo).stage payload = some (lineOf sendNext recvFifo) := by
  unfold SendFifo.fill at filled
  split_ifs at filled with guard
  obtain rfl := Option.some.inj filled
  exact Line.stage_eq_some.mpr ⟨guard.1, rfl⟩

theorem lineOf_publish (published : sendFifo.publish edge = some sendNext) :
    (lineOf sendFifo recvFifo).publish = some (lineOf sendNext recvFifo) := by
  unfold SendFifo.publish at published
  split at published
  · cases published
  case h_2 payload found =>
    obtain rfl := Option.some.inj published
    exact Line.publish_eq_some.mpr ⟨payload, found, rfl⟩

theorem lineOf_read {published : List (List UInt8)} {released tailed sized landed : ℕ}
    (same : sendFifo.published = published)
    (holds : recvFifo.Holds edge published released tailed sized landed)
    (read : recvFifo.read edge = some recvNext) :
    (lineOf sendFifo recvFifo).take = some (lineOf sendFifo recvNext) := by
  subst same
  have kept := (holds.read read).1
  unfold RecvFifo.read at read
  split_ifs at read with guard
  obtain rfl := Option.some.inj read
  have more := kept.consumed_prefix.length_le
  simp only [List.length_append, List.length_singleton] at more
  refine Line.take_eq_some.mpr ⟨guard.1, more, ?_⟩
  simp [lineOf]

theorem lineOf_release (released : recvFifo.release edge = some recvNext) :
    (lineOf sendFifo recvFifo).release = some (lineOf sendFifo recvNext) := by
  unfold RecvFifo.release at released
  split_ifs at released with busy
  obtain rfl := Option.some.inj released
  exact Line.release_eq_some.mpr ⟨busy, rfl⟩

theorem head_fill {payload : List UInt8} (filled : sendFifo.fill edge payload = some sendNext) :
    sendNext.head = sendFifo.head := by
  unfold SendFifo.fill at filled
  split_ifs at filled
  exact (congrArg SendFifo.head (Option.some.inj filled)).symm

theorem head_publish (published : sendFifo.publish edge = some sendNext) :
    sendNext.head = sendFifo.head := by
  unfold SendFifo.publish at published
  split at published
  · cases published
  · exact (congrArg SendFifo.head (Option.some.inj published)).symm

/-- The producer writes a slice it may publish into the slot of `send_tail`, whether `send_head`
covers it or not. -/
def SendFifo.writeSlot (edge : Edge) (fifo : SendFifo) (payload : List UInt8) : Option SendFifo :=
  if fifo.staged = none ∧ edge.Publishable payload then some (fifo.write edge payload) else none

theorem fill_eq_writeSlot (payload : List UInt8)
    (room : sendFifo.tail + edge.stepIncrement ≤ sendFifo.head + edge.slotCount) :
    sendFifo.fill edge payload = sendFifo.writeSlot edge payload := by
  simp [SendFifo.fill, SendFifo.writeSlot, SendFifo.write, room]

/-- The slot being read holds the slice that was taken last. -/
theorem RecvFifo.Holds.peek {published : List (List UInt8)} {released tailed sized landed : ℕ}
    (holds : recvFifo.Holds edge published released tailed sized landed)
    (busy : recvFifo.reading = true) {k : ℕ} (last : recvFifo.consumed.length = k + 1)
    {payload : List UInt8} (found : published[k]? = some payload) :
    recvFifo.peek edge payload.length = payload := by
  have tailed_le := holds.released_le
  have sized_le := holds.tailed_le
  have landed_le := holds.sized_le
  have published_le := holds.landed_le
  have consumed := congrArg List.length holds.consumed
  rw [last, List.length_take, Nat.min_eq_left (by omega), busy, Bool.toNat_true] at consumed
  obtain rfl : k = released := by omega
  rw [busy, Bool.toNat_true] at tailed_le
  unfold RecvFifo.peek
  rw [holds.head]
  exact holds.bytes k payload le_rfl (by omega) found

end

/-! ### SEND/RECV -/

namespace SendRecv

/-- Moves of the proxies and of the network. -/
inductive Own
  | send
  | pollSend (count : ℕ)
  | recv
  | pollRecv (count : ℕ)
  | executeSend
  deriving DecidableEq, Repr

/-- The label of a move. -/
def Own.label : Own → Label
  | .send => .send
  | .pollSend count => .pollSend count
  | .recv => .recv
  | .pollRecv count => .pollRecv count
  | .executeSend => .executeSend

/-- The line of the edge. -/
def State.line (state : State) : Line UInt8 := lineOf state.sendFifo state.recvFifo

theorem line_sendStep {edge : Edge} {state next : State}
    (moved : sendStep edge state = some next) : next.line = state.line := by
  unfold sendStep at moved
  dsimp only at moved
  repeat' split at moved
  all_goals cases moved
  all_goals rfl

theorem line_recvStep {edge : Edge} {state next : State}
    (moved : recvStep edge state = some next) : next.line = state.line := by
  unfold recvStep at moved
  dsimp only at moved
  repeat' split at moved
  all_goals cases moved
  all_goals rfl

theorem line_own {edge : Edge} {state next : State} {move : Own}
    (moved : step edge state move.label = some next) : next.line = state.line := by
  cases move with
  | send => exact line_sendStep moved
  | recv => exact line_recvStep moved
  | pollSend count =>
      simp only [Own.label, step, pollSend] at moved
      split_ifs at moved
      exact Option.some.inj moved ▸ rfl
  | pollRecv count =>
      simp only [Own.label, step, pollRecv] at moved
      split_ifs at moved
      exact Option.some.inj moved ▸ rfl
  | executeSend =>
      simp only [Own.label, step, executeSend] at moved
      split at moved
      · split at moved
        · exact Option.some.inj moved ▸ rfl
        · cases moved
      · cases moved

/-- An edge over SEND/RECV as a pipe. -/
def pipe (edge : Edge) : Pipe UInt8 where
  State := State
  Own := Own
  start := initial edge
  fill := fun state payload => step edge state (.fill payload)
  publish := fun state => step edge state .publish
  take := fun state => step edge state .read
  peek := fun state len => state.recvFifo.peek edge len
  release := fun state => step edge state .release
  own := fun state move => step edge state move.label
  line := State.line
  Good := Good edge
  good_start := ⟨0, 0, 0, initial_inv edge⟩
  line_start := rfl
  fill_spec := by
    intro state payload next good filled
    refine ⟨good_step _ good filled, ?_⟩
    obtain ⟨fifo, moved, rfl⟩ := Option.map_eq_some_iff.mp filled
    exact lineOf_fill moved
  publish_spec := by
    intro state next good published
    refine ⟨good_step _ good published, ?_⟩
    obtain ⟨fifo, moved, rfl⟩ := Option.map_eq_some_iff.mp published
    exact lineOf_publish moved
  take_spec := by
    intro state next good taken
    refine ⟨good_step _ good taken, ?_⟩
    obtain ⟨completed, tailed, released, inv⟩ := good
    obtain ⟨fifo, moved, rfl⟩ := Option.map_eq_some_iff.mp taken
    exact lineOf_read rfl inv.recvFifo moved
  release_spec := by
    intro state next good released
    refine ⟨good_step _ good released, ?_⟩
    obtain ⟨fifo, moved, rfl⟩ := Option.map_eq_some_iff.mp released
    exact lineOf_release moved
  own_spec := fun good moved => ⟨good_step _ good moved, line_own moved⟩
  peek_spec := by
    rintro state k payload ⟨completed, tailed, released, inv⟩ busy last found
    exact inv.recvFifo.peek busy last found

theorem sendFifo_recvStep {edge : Edge} {state next : State}
    (moved : recvStep edge state = some next) : next.sendFifo = state.sendFifo := by
  unfold recvStep at moved
  dsimp only at moved
  repeat' split at moved
  all_goals cases moved
  all_goals rfl

/-- `send_head` is `next_complete_step_` and only grows. -/
theorem head_le_sendStep {edge : Edge} {state next : State}
    (at_head : state.sendFifo.head = state.sender.nextCompleteStep)
    (moved : sendStep edge state = some next) : state.sendFifo.head ≤ next.sendFifo.head := by
  rw [at_head]
  unfold sendStep at moved
  dsimp only at moved
  split at moved
  case h_6 =>
    split at moved
    · cases moved
    · split at moved
      · exact Option.some.inj moved ▸ at_head.ge
      case h_2 accepted =>
        obtain rfl := Option.some.inj moved
        obtain ⟨forward, last⟩ := completeThrough_ok accepted
        exact (forward.trans (Nat.le_add_right _ _)).trans last.ge
  all_goals
    repeat' split at moved
    all_goals cases moved
  case h_2.isFalse.isTrue.isFalse equal => exact (not_not.mp equal).ge.trans (Nat.le_add_right _ _)
  all_goals exact at_head.ge

/-- `send_head` only grows. -/
theorem head_le {edge : Edge} {state next : State} {move : Pipe.Move UInt8 Own}
    (good : Good edge state) (moved : (pipe edge).step state move = some next) :
    state.sendFifo.head ≤ next.sendFifo.head := by
  cases move with
  | fill payload =>
      obtain ⟨fifo, filled, rfl⟩ := Option.map_eq_some_iff.mp moved
      exact (head_fill filled).ge
  | publish =>
      obtain ⟨fifo, published, rfl⟩ := Option.map_eq_some_iff.mp moved
      exact (head_publish published).ge
  | take | release =>
      obtain ⟨fifo, -, rfl⟩ := Option.map_eq_some_iff.mp moved
      exact le_rfl
  | own move =>
      cases move with
      | send =>
          obtain ⟨completed, tailed, released, inv⟩ := good
          exact head_le_sendStep (inv.sendFifo.head.trans inv.nextCompleteStep.symm) moved
      | recv => exact (congrArg SendFifo.head (sendFifo_recvStep moved)).ge
      | pollSend count =>
          simp only [Pipe.step, pipe, Own.label, step, pollSend] at moved
          split_ifs at moved
          exact (congrArg (·.sendFifo.head) (Option.some.inj moved)).le
      | pollRecv count =>
          simp only [Pipe.step, pipe, Own.label, step, pollRecv] at moved
          split_ifs at moved
          exact (congrArg (·.sendFifo.head) (Option.some.inj moved)).le
      | executeSend =>
          simp only [Pipe.step, pipe, Own.label, step, executeSend] at moved
          repeat' split at moved
          all_goals cases moved
          all_goals exact le_rfl

/-- The slots of the send FIFO. -/
def slots (edge : Edge) : (pipe edge).Slots where
  window := edge.slotCount
  width := edge.stepIncrement
  base := edge.base
  tail := fun state => state.sendFifo.tail
  head := fun state => state.sendFifo.head
  write := fun state payload =>
    (state.sendFifo.writeSlot edge payload).map fun fifo => { state with sendFifo := fifo }
  fill_eq := fun payload room =>
    congrArg (Option.map _) (fill_eq_writeSlot payload room)
  tail_eq := fun ⟨_, _, _, inv⟩ => inv.sendFifo.tail
  head_le := fun _ => head_le

end SendRecv

/-! ### WRITE+CTS -/

namespace WriteCts

/-- Moves of the proxies and of the network. -/
inductive Own
  | send
  | pollSend (count : ℕ)
  | recv
  | pollRecv (count : ℕ)
  | deliverCts
  | ackCts
  | executeWrite
  deriving DecidableEq, Repr

/-- The label of a move. -/
def Own.label : Own → Label
  | .send => .send
  | .pollSend count => .pollSend count
  | .recv => .recv
  | .pollRecv count => .pollRecv count
  | .deliverCts => .deliverCts
  | .ackCts => .ackCts
  | .executeWrite => .executeWrite

/-- The line of the edge. -/
def State.line (state : State) : Line UInt8 := lineOf state.sendFifo state.recvFifo

theorem line_sendStep {edge : Edge} {state next : State}
    (moved : sendStep edge state = some next) : next.line = state.line := by
  unfold sendStep at moved
  dsimp only at moved
  repeat' split at moved
  all_goals cases moved
  all_goals rfl

theorem line_drainRecv (edge : Edge) (state : State) (left : ℕ) (wc : RecvWc) :
    (drainRecv edge state left wc).line = state.line := by
  unfold drainRecv
  dsimp only
  split
  · split <;> rfl
  · split_ifs <;> rfl

theorem line_recvStep {edge : Edge} {state next : State}
    (moved : recvStep edge state = some next) : next.line = state.line := by
  unfold recvStep at moved
  dsimp only at moved
  split at moved
  case h_7 left _ =>
    split at moved
    · cases moved
    · obtain rfl := Option.some.inj moved
      exact line_drainRecv edge _ left _
  all_goals
    repeat' split at moved
    all_goals cases moved
    all_goals rfl

theorem line_own {edge : Edge} {state next : State} {move : Own}
    (moved : step edge state move.label = some next) : next.line = state.line := by
  cases move with
  | send => exact line_sendStep moved
  | recv => exact line_recvStep moved
  | pollSend count =>
      simp only [Own.label, step, pollSend] at moved
      split_ifs at moved
      exact Option.some.inj moved ▸ rfl
  | pollRecv count =>
      simp only [Own.label, step, pollRecv] at moved
      split_ifs at moved
      exact Option.some.inj moved ▸ rfl
  | deliverCts =>
      simp only [Own.label, step, deliverCts] at moved
      split at moved
      · cases moved
      · exact Option.some.inj moved ▸ rfl
  | ackCts =>
      simp only [Own.label, step, ackCts] at moved
      split_ifs at moved
      split at moved
      · cases moved
      · exact Option.some.inj moved ▸ rfl
  | executeWrite =>
      simp only [Own.label, step, executeWrite] at moved
      split at moved
      · exact Option.some.inj moved ▸ rfl
      · cases moved

/-- An edge over WRITE+CTS as a pipe. -/
def pipe (edge : Edge) : Pipe UInt8 where
  State := State
  Own := Own
  start := initial edge
  fill := fun state payload => step edge state (.fill payload)
  publish := fun state => step edge state .publish
  take := fun state => step edge state .read
  peek := fun state len => state.recvFifo.peek edge len
  release := fun state => step edge state .release
  own := fun state move => step edge state move.label
  line := State.line
  Good := Good edge
  good_start := ⟨0, 0, 0, initial_inv edge⟩
  line_start := rfl
  fill_spec := by
    intro state payload next good filled
    refine ⟨good_step _ good filled, ?_⟩
    obtain ⟨fifo, moved, rfl⟩ := Option.map_eq_some_iff.mp filled
    exact lineOf_fill moved
  publish_spec := by
    intro state next good published
    refine ⟨good_step _ good published, ?_⟩
    obtain ⟨fifo, moved, rfl⟩ := Option.map_eq_some_iff.mp published
    exact lineOf_publish moved
  take_spec := by
    intro state next good taken
    refine ⟨good_step _ good taken, ?_⟩
    obtain ⟨completed, tailed, released, inv⟩ := good
    obtain ⟨fifo, moved, rfl⟩ := Option.map_eq_some_iff.mp taken
    exact lineOf_read rfl inv.recvFifo moved
  release_spec := by
    intro state next good released
    refine ⟨good_step _ good released, ?_⟩
    obtain ⟨fifo, moved, rfl⟩ := Option.map_eq_some_iff.mp released
    exact lineOf_release moved
  own_spec := fun good moved => ⟨good_step _ good moved, line_own moved⟩
  peek_spec := by
    rintro state k payload ⟨completed, tailed, released, inv⟩ busy last found
    exact inv.recvFifo.peek busy last found

theorem sendFifo_recvStep {edge : Edge} {state next : State}
    (moved : recvStep edge state = some next) : next.sendFifo = state.sendFifo := by
  have drained (left : ℕ) (wc : RecvWc) (before : State) :
      (drainRecv edge before left wc).sendFifo = before.sendFifo := by
    unfold drainRecv
    dsimp only
    split
    · split <;> rfl
    · split_ifs <;> rfl
  unfold recvStep at moved
  dsimp only at moved
  split at moved
  case h_7 left _ =>
    split at moved
    · cases moved
    · obtain rfl := Option.some.inj moved
      exact drained left _ _
  all_goals
    repeat' split at moved
    all_goals cases moved
    all_goals rfl

/-- `send_head` is `next_complete_step_` and only grows. -/
theorem head_le_sendStep {edge : Edge} {state next : State}
    (at_head : state.sendFifo.head = state.sender.nextCompleteStep)
    (moved : sendStep edge state = some next) : state.sendFifo.head ≤ next.sendFifo.head := by
  rw [at_head]
  unfold sendStep at moved
  dsimp only at moved
  split at moved
  case h_10 =>
    split at moved
    · cases moved
    · split at moved
      · exact Option.some.inj moved ▸ at_head.ge
      case h_2 accepted =>
        obtain rfl := Option.some.inj moved
        obtain ⟨forward, last⟩ := completeThrough_ok accepted
        exact (forward.trans (Nat.le_add_right _ _)).trans last.ge
  all_goals
    repeat' split at moved
    all_goals cases moved
  case h_2.isFalse.isTrue.isFalse equal => exact (not_not.mp equal).ge.trans (Nat.le_add_right _ _)
  all_goals exact at_head.ge

/-- `send_head` only grows. -/
theorem head_le {edge : Edge} {state next : State} {move : Pipe.Move UInt8 Own}
    (good : Good edge state) (moved : (pipe edge).step state move = some next) :
    state.sendFifo.head ≤ next.sendFifo.head := by
  cases move with
  | fill payload =>
      obtain ⟨fifo, filled, rfl⟩ := Option.map_eq_some_iff.mp moved
      exact (head_fill filled).ge
  | publish =>
      obtain ⟨fifo, published, rfl⟩ := Option.map_eq_some_iff.mp moved
      exact (head_publish published).ge
  | take | release =>
      obtain ⟨fifo, -, rfl⟩ := Option.map_eq_some_iff.mp moved
      exact le_rfl
  | own move =>
      cases move with
      | send =>
          obtain ⟨completed, tailed, released, inv⟩ := good
          exact head_le_sendStep (inv.sendFifo.head.trans inv.nextCompleteStep.symm) moved
      | recv => exact (congrArg SendFifo.head (sendFifo_recvStep moved)).ge
      | pollSend count =>
          simp only [Pipe.step, pipe, Own.label, step, pollSend] at moved
          split_ifs at moved
          exact (congrArg (·.sendFifo.head) (Option.some.inj moved)).le
      | pollRecv count =>
          simp only [Pipe.step, pipe, Own.label, step, pollRecv] at moved
          split_ifs at moved
          exact (congrArg (·.sendFifo.head) (Option.some.inj moved)).le
      | deliverCts =>
          simp only [Pipe.step, pipe, Own.label, step, deliverCts] at moved
          split at moved
          · cases moved
          · exact (congrArg (·.sendFifo.head) (Option.some.inj moved)).le
      | ackCts =>
          simp only [Pipe.step, pipe, Own.label, step, ackCts] at moved
          repeat' split at moved
          all_goals cases moved
          all_goals exact le_rfl
      | executeWrite =>
          simp only [Pipe.step, pipe, Own.label, step, executeWrite] at moved
          split at moved
          · exact (congrArg (·.sendFifo.head) (Option.some.inj moved)).le
          · cases moved

/-- The slots of the send FIFO. -/
def slots (edge : Edge) : (pipe edge).Slots where
  window := edge.slotCount
  width := edge.stepIncrement
  base := edge.base
  tail := fun state => state.sendFifo.tail
  head := fun state => state.sendFifo.head
  write := fun state payload =>
    (state.sendFifo.writeSlot edge payload).map fun fifo => { state with sendFifo := fifo }
  fill_eq := fun payload room =>
    congrArg (Option.map _) (fill_eq_writeSlot payload room)
  tail_eq := fun ⟨_, _, _, inv⟩ => inv.sendFifo.tail
  head_le := fun _ => head_le

end WriteCts

end NanoNccl.Rdma
