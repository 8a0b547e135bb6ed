import NanoNccl.Lib.Pipe
import NanoNccl.Socket.Delivery

/-!
# Socket edges as pipes

The proxies and the byte stream of a socket edge stand between the producer's line and the
consumer's without changing it.
-/

namespace NanoNccl.Socket

/-- Moves of the proxies and of the stream. -/
inductive Own
  | send
  | sendmsg (count : ℕ)
  | recv
  | recvBytes (count : ℕ)
  deriving DecidableEq, Repr

/-- The label of a move. -/
def Own.label : Own → Label
  | .send => .send
  | .sendmsg count => .sendmsg count
  | .recv => .recv
  | .recvBytes count => .recvBytes count

/-- The line between the producer and the consumer. -/
def State.line (state : State) : Line UInt8 where
  published := state.sender.fifo.published
  staged := state.sender.fifo.staged
  taken := state.receiver.fifo.consumed.length
  reading := state.receiver.fifo.reading

/-- First bytes of the slot at `recv_head`. -/
def RecvFifo.peek (link : Link) (fifo : RecvFifo) (len : ℕ) : List UInt8 :=
  Memory.block fifo.data (link.recvAddr (link.slot fifo.head)) len

section

variable {link : Link} {state next : State} {completed tailed released : ℕ}
  {sent got : List UInt8}

theorem line_fill {payload : List UInt8}
    (filled : step link state (.fill payload) = some next) :
    state.line.stage payload = some next.line := by
  obtain ⟨fifo, moved, rfl⟩ := Option.map_eq_some_iff.mp filled
  unfold SendFifo.fill at moved
  split_ifs at moved with guard
  obtain rfl := Option.some.inj moved
  exact Line.stage_eq_some.mpr ⟨guard.1, rfl⟩

theorem line_publish (published : step link state .publish = some next) :
    state.line.publish = some next.line := by
  obtain ⟨fifo, moved, rfl⟩ := Option.map_eq_some_iff.mp published
  unfold SendFifo.publish at moved
  split at moved
  · cases moved
  case h_2 payload found =>
    obtain rfl := Option.some.inj moved
    exact Line.publish_eq_some.mpr ⟨payload, found, rfl⟩

theorem Inv.line_read (inv : Inv link state completed tailed released sent got)
    (read : Socket.step link state .read = some next) : state.line.take = some next.line := by
  obtain ⟨fifo, moved, rfl⟩ := Option.map_eq_some_iff.mp read
  have kept := inv.recvFifo.read moved
  unfold RecvFifo.read at moved
  split_ifs at moved with guard
  obtain rfl := Option.some.inj moved
  have more := (kept.consumed ▸ List.take_prefix _ _ :
    _ <+: state.sender.fifo.published).length_le
  simp only [List.length_append, List.length_singleton] at more
  refine Line.take_eq_some.mpr ⟨guard.1, more, ?_⟩
  simp [State.line]

theorem line_release (released : step link state .release = some next) :
    state.line.release = some next.line := by
  obtain ⟨fifo, moved, rfl⟩ := Option.map_eq_some_iff.mp released
  unfold RecvFifo.release at moved
  split_ifs at moved with busy
  obtain rfl := Option.some.inj moved
  exact Line.release_eq_some.mpr ⟨busy, rfl⟩

theorem line_own {move : Own} (moved : step link state move.label = some next) :
    next.line = state.line := by
  cases move with
  | send =>
      obtain ⟨side, sends, rfl⟩ := Option.map_eq_some_iff.mp moved
      unfold sendStep at sends
      dsimp only at sends
      repeat' split at sends
      all_goals cases sends
      all_goals rfl
  | sendmsg count =>
      obtain ⟨⟨side, bytes⟩, sends, rfl⟩ := Option.map_eq_some_iff.mp moved
      unfold sendmsg at sends
      dsimp only at sends
      repeat' split at sends
      all_goals cases sends
      all_goals rfl
  | recv =>
      obtain ⟨side, receives, rfl⟩ := Option.map_eq_some_iff.mp moved
      unfold recvStep at receives
      dsimp only at receives
      repeat' split at receives
      all_goals cases receives
      all_goals rfl
  | recvBytes count =>
      simp only [Own.label, step] at moved
      split_ifs at moved
      obtain ⟨side, receives, rfl⟩ := Option.map_eq_some_iff.mp moved
      unfold recvBytes at receives
      repeat' split at receives
      all_goals cases receives
      all_goals rfl

/-- The slot being read holds the slice that was taken last. -/
theorem Inv.peek (inv : Inv link state completed tailed released sent got)
    (busy : state.line.reading = true) {k : ℕ} (last : state.line.taken = k + 1)
    {payload : List UInt8} (found : state.line.published[k]? = some payload) :
    state.receiver.fifo.peek link payload.length = payload := by
  have tailed_le := inv.recvFifo.released_le
  have published_le := inv.recvFifo.tailed_le
  have consumed := congrArg List.length inv.recvFifo.consumed
  simp only [State.line] at busy last found
  rw [last, List.length_take, Nat.min_eq_left (by omega), busy, Bool.toNat_true] at consumed
  obtain rfl : k = released := by omega
  rw [busy, Bool.toNat_true] at tailed_le
  unfold RecvFifo.peek
  rw [inv.recvFifo.head]
  exact (inv.recvFifo.stored k payload le_rfl tailed_le found).2

end

/-- A socket edge as a pipe. -/
def pipe (link : Link) : Pipe UInt8 where
  State := State
  Own := Own
  start := initial link
  fill := fun state payload => step link state (.fill payload)
  publish := fun state => step link state .publish
  take := fun state => step link state .read
  peek := fun state len => state.receiver.fifo.peek link len
  release := fun state => step link state .release
  own := fun state move => step link state move.label
  line := State.line
  Good := fun state => ∃ completed tailed released sent got,
    Inv link state completed tailed released sent got
  good_start := ⟨0, 0, 0, [], [], initial_inv link⟩
  line_start := rfl
  fill_spec := fun ⟨_, _, _, _, _, inv⟩ filled => ⟨inv.step filled, line_fill filled⟩
  publish_spec := fun ⟨_, _, _, _, _, inv⟩ published =>
    ⟨inv.step published, line_publish published⟩
  take_spec := fun ⟨_, _, _, _, _, inv⟩ taken => ⟨inv.step taken, inv.line_read taken⟩
  release_spec := fun ⟨_, _, _, _, _, inv⟩ released => ⟨inv.step released, line_release released⟩
  own_spec := fun ⟨_, _, _, _, _, inv⟩ moved => ⟨inv.step moved, line_own moved⟩
  peek_spec := fun ⟨_, _, _, _, _, inv⟩ busy last found => inv.peek busy last found

/-- `send_head` only grows. -/
theorem head_le {link : Link} {state next : State} {move : Pipe.Move UInt8 Own}
    (good : (pipe link).Good state) (moved : (pipe link).step state move = some next) :
    state.sender.fifo.head ≤ next.sender.fifo.head := by
  obtain ⟨completed, tailed, released, sent, got, inv⟩ := good
  cases move with
  | fill payload =>
      obtain ⟨fifo, filled, rfl⟩ := Option.map_eq_some_iff.mp moved
      unfold SendFifo.fill at filled
      split_ifs at filled
      exact (congrArg SendFifo.head (Option.some.inj filled)).le
  | publish =>
      obtain ⟨fifo, published, rfl⟩ := Option.map_eq_some_iff.mp moved
      unfold SendFifo.publish at published
      split at published
      · cases published
      · exact (congrArg SendFifo.head (Option.some.inj published)).le
  | take | release =>
      obtain ⟨fifo, -, rfl⟩ := Option.map_eq_some_iff.mp moved
      exact le_rfl
  | own move =>
      cases move with
      | send =>
          obtain ⟨side, sends, rfl⟩ := Option.map_eq_some_iff.mp moved
          have at_head : state.sender.fifo.head = state.sender.proxy.step :=
            inv.sendFifo.head.trans inv.sendAt.symm
          unfold sendStep at sends
          dsimp only at sends
          repeat' split at sends
          all_goals cases sends
          all_goals first | exact le_rfl | exact at_head.trans_le (Nat.le_add_right _ _)
      | sendmsg count =>
          obtain ⟨⟨side, bytes⟩, sends, rfl⟩ := Option.map_eq_some_iff.mp moved
          unfold sendmsg at sends
          dsimp only at sends
          repeat' split at sends
          all_goals cases sends
          all_goals exact le_rfl
      | recv =>
          obtain ⟨side, -, rfl⟩ := Option.map_eq_some_iff.mp moved
          exact le_rfl
      | recvBytes count =>
          simp only [Pipe.step, pipe, Own.label, step] at moved
          split_ifs at moved
          obtain ⟨side, -, rfl⟩ := Option.map_eq_some_iff.mp moved
          exact le_rfl

/-- The slots of a socket edge. -/
def slots (link : Link) : (pipe link).Slots where
  window := link.slotCount
  width := link.stepIncrement
  base := link.base
  tail := fun state => state.sender.fifo.tail
  head := fun state => state.sender.fifo.head
  write := fun state payload =>
    (state.sender.fifo.write link payload).map fun fifo =>
      { state with sender := { state.sender with fifo := fifo } }
  fill_eq := by
    intro state payload room
    simp [pipe, step, SendFifo.fill, SendFifo.write, room]
  tail_eq := fun ⟨_, _, _, _, _, inv⟩ => inv.sendFifo.tail
  head_le := fun _ => head_le

end NanoNccl.Socket
