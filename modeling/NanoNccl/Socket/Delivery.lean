import NanoNccl.Lib.Numbered
import NanoNccl.Socket.Proxy

/-!
# Delivery over a socket edge

All bytes the receive proxy has taken from the stream, followed by the bytes on their way, are all
bytes the send proxy has written: the frames of the slices it has finished and a part of the next
one. Since frames announce their size, the receive proxy finds the same slices in the stream that
the producer has published, however the stream was cut.
-/

namespace NanoNccl.Socket

open ByteOrder

/-! ### Frames and gather lists -/

theorem gather_advanceIov (header : List UInt8) (data : ℕ → UInt8) (iovs : List Iovec) (count : ℕ) :
    gather header data (advanceIov iovs count) = (gather header data iovs).drop count := by
  induction iovs generalizing count with
  | nil => simp [advanceIov, gather]
  | cons iov rest ih =>
      simp only [gather] at ih
      simp only [advanceIov, gather, List.flatMap_cons]
      split_ifs with whole
      · have first : (Memory.block (iov.buffer.contents header data) iov.base iov.len).drop count =
            [] := List.drop_eq_nil_of_le (by simpa using whole)
        rw [ih, List.drop_append, Memory.length_block, first, List.nil_append]
      · rw [List.flatMap_cons, List.drop_append, Memory.length_block, Memory.drop_block,
          Nat.sub_eq_zero_of_le (by omega : count ≤ iov.len), List.drop_zero]

theorem advanceIov_advanceIov (iovs : List Iovec) (first second : ℕ) :
    advanceIov (advanceIov iovs first) second = advanceIov iovs (first + second) := by
  induction iovs generalizing first with
  | nil => rfl
  | cons iov rest ih =>
      by_cases whole : iov.len ≤ first
      · have still : iov.len ≤ first + second := by omega
        simp only [advanceIov, if_pos whole, if_pos still, ih]
        congr 1
        omega
      · simp only [advanceIov, if_neg whole]
        by_cases finished : iov.len - first ≤ second
        · have still : iov.len ≤ first + second := by omega
          rw [if_pos finished, if_pos still]
          congr 1
          omega
        · have unfinished : ¬ iov.len ≤ first + second := by omega
          rw [if_neg finished, if_neg unfinished, Nat.add_assoc, Nat.sub_sub]

/-- A gather list without empty buffers is unchanged as long as nothing was written. -/
theorem advanceIov_zero {iovs : List Iovec} (nonempty : ∀ iov ∈ iovs, iov.len ≠ 0) :
    advanceIov iovs 0 = iovs := by
  cases iovs with
  | nil => rfl
  | cons iov rest =>
      have positive := nonempty iov List.mem_cons_self
      rw [advanceIov, if_neg (by omega), Nat.add_zero, Nat.sub_zero]

theorem sendSlice_nonempty (addr payloadBytes : ℕ) :
    ∀ iov ∈ sendSlice addr payloadBytes, iov.len ≠ 0 := by
  intro iov member
  simpa using (List.mem_filter.mp member).2

@[simp] theorem length_sliceHeader (payloadBytes : ℕ) : (sliceHeader payloadBytes).length = 4 :=
  length_bigEndian 4 payloadBytes

theorem block_getD (bytes : List UInt8) :
    Memory.block (fun i => bytes.getD i 0) 0 bytes.length = bytes := by
  apply List.ext_getElem
  · simp
  · intro i inside _
    have short : i < bytes.length := by simpa using inside
    simp [Memory.block, short]

/-- The gather list of `send_slice` is the frame. -/
theorem gather_sendSlice (data : ℕ → UInt8) (addr payloadBytes : ℕ) :
    gather (sliceHeader payloadBytes) data (sendSlice addr payloadBytes) =
      sliceHeader payloadBytes ++ Memory.block data addr payloadBytes := by
  have header : Memory.block (Buffer.header.contents (sliceHeader payloadBytes) data) 0 4 =
      sliceHeader payloadBytes := by
    have whole := block_getD (sliceHeader payloadBytes)
    rwa [length_sliceHeader] at whole
  have payload : Buffer.fifo.contents (sliceHeader payloadBytes) data = data := rfl
  by_cases empty : payloadBytes = 0
  · subst empty
    simp [gather, sendSlice, gatherList, header, Memory.block_zero]
  · simp [gather, sendSlice, gatherList, empty, header, payload]

@[simp] theorem length_frame (payload : List UInt8) :
    (frame payload).length = 4 + payload.length := by
  simp [frame]

/-! ### The send FIFO -/

namespace SendFifo

variable (link : Link) (fifo : SendFifo)

/-- The slot of the `k`-th slice holds it. -/
def Stored (k : ℕ) (payload : List UInt8) : Prop :=
  fifo.sizes (link.slot (link.step k)) = payload.length ∧
    Memory.block fifo.data (link.sendAddr (link.slot (link.step k))) payload.length = payload

/-- Contract of the send FIFO when `completed` slices are released by `send_head`. -/
structure Holds (completed : ℕ) : Prop where
  head : fifo.head = link.step completed
  tail : fifo.tail = link.step fifo.published.length
  completed_le : completed ≤ fifo.published.length
  bound : fifo.tail ≤ fifo.head + link.slotCount
  publishable : ∀ payload ∈ fifo.published, link.Publishable payload
  stored : ∀ k payload, completed ≤ k → fifo.published[k]? = some payload →
    fifo.Stored link k payload
  staged : ∀ payload, fifo.staged = some payload →
    link.Publishable payload ∧ fifo.tail + link.stepIncrement ≤ fifo.head + link.slotCount ∧
      fifo.Stored link fifo.published.length payload

end SendFifo

theorem SendFifo.fresh_holds (link : Link) : (SendFifo.fresh link).Holds link 0 where
  head := by simp [fresh]
  tail := by simp [fresh]
  completed_le := Nat.zero_le _
  bound := Nat.le_add_right _ _
  publishable := by simp [fresh]
  stored := by simp [fresh]
  staged := by simp [fresh]

namespace SendFifo.Holds

variable {link : Link} {fifo next : SendFifo} {completed : ℕ}

theorem fill (holds : fifo.Holds link completed) {payload : List UInt8}
    (step : fifo.fill link payload = some next) :
    next.Holds link completed ∧ next.published = fifo.published := by
  unfold SendFifo.fill at step
  split_ifs at step with guard
  obtain ⟨idle, publishable, credit⟩ := guard
  obtain rfl := Option.some.inj step
  refine ⟨{ holds with stored := ?_, staged := ?_ }, rfl⟩
  · intro k slice released found
    obtain ⟨size, bytes⟩ := holds.stored k slice released found
    have inside : k < fifo.published.length := (List.getElem?_eq_some_iff.mp found).1
    have apart : link.slot (link.step k) ≠ link.slot fifo.tail := by
      have bound := holds.bound
      rw [holds.tail, holds.head] at credit bound
      rw [holds.tail]
      refine link.slot_ne completed inside.ne released ?_ holds.completed_le ?_
      · exact (link.step_le_step.mpr inside).trans bound
      · rwa [← link.step_succ]
    have slice_fits := (holds.publishable slice (List.mem_of_getElem? found)).1
    refine ⟨?_, ?_⟩
    · rw [← size]
      exact Function.update_of_ne apart _ _
    · rw [Memory.block_writeBlock_apart]
      · exact bytes
      · have payload_fits : 0 + payload.length ≤ link.slotBytes := by simpa using publishable.1
        exact Memory.slots_apart link.sendData apart slice_fits payload_fits
  · intro slice same
    obtain rfl : payload = slice := Option.some.inj same
    refine ⟨publishable, credit, ?_, ?_⟩
    · rw [← holds.tail]
      exact Function.update_self _ _ _
    · rw [← holds.tail]
      exact Memory.block_writeBlock _ _ _

theorem publish (holds : fifo.Holds link completed) (step : fifo.publish link = some next) :
    next.Holds link completed ∧ fifo.published <+: next.published := by
  unfold SendFifo.publish at step
  split at step
  · cases step
  case h_2 payload found =>
    obtain rfl := Option.some.inj step
    obtain ⟨publishable, room, stored⟩ := holds.staged payload found
    refine ⟨?_, List.prefix_append _ _⟩
    refine { head := holds.head, tail := ?_, completed_le := ?_, bound := room, publishable := ?_,
             stored := ?_, staged := by simp }
    · simp only [List.length_append, List.length_singleton]
      rw [holds.tail, link.step_succ]
    · simp only [List.length_append, List.length_singleton]
      exact holds.completed_le.trans (Nat.le_succ _)
    · intro slice member
      rcases List.mem_append.mp member with old | new
      · exact holds.publishable slice old
      · rw [List.mem_singleton.mp new]
        exact publishable
    · intro k slice released at_k
      rcases Queue.getElem?_concat_eq_some_iff.mp at_k with old | ⟨rfl, rfl⟩
      · exact holds.stored k slice released old
      · exact stored

/-- `send_head` releases the next published slice. -/
theorem release (holds : fifo.Holds link completed)
    (published : completed < fifo.published.length) :
    { fifo with head := link.step (completed + 1) }.Holds link (completed + 1) := by
  have forward : fifo.head ≤ link.step (completed + 1) := by
    rw [holds.head, link.step_le_step]
    exact Nat.le_succ _
  refine { head := rfl, tail := holds.tail, completed_le := published, bound := ?_,
           publishable := holds.publishable, stored := ?_, staged := ?_ }
  · exact holds.bound.trans (Nat.add_le_add_right forward _)
  · intro k payload released found
    exact holds.stored k payload (Nat.le_of_succ_le released) found
  · intro payload found
    obtain ⟨publishable, room, stored⟩ := holds.staged payload found
    exact ⟨publishable, room.trans (Nat.add_le_add_right forward _), stored⟩

end SendFifo.Holds

/-! ### The receive FIFO -/

namespace RecvFifo

variable (link : Link) (fifo : RecvFifo)

/-- Contract of the receive FIFO when `released` slices are released by `recv_head` and `tailed`
are published by `recv_tail`. -/
structure Holds (published : List (List UInt8)) (released tailed : ℕ) : Prop where
  head : fifo.head = link.step released
  tail : fifo.tail = link.step tailed
  released_le : released + fifo.reading.toNat ≤ tailed
  bound : fifo.tail ≤ fifo.head + link.slotCount
  tailed_le : tailed ≤ published.length
  consumed : fifo.consumed = published.take (released + fifo.reading.toNat)
  stored : ∀ k payload, released ≤ k → k < tailed → published[k]? = some payload →
    fifo.sizes (link.slot (link.step k)) = payload.length ∧
      Memory.block fifo.data (link.recvAddr (link.slot (link.step k))) payload.length = payload

end RecvFifo

theorem RecvFifo.fresh_holds (link : Link) : (RecvFifo.fresh link).Holds link [] 0 0 where
  head := by simp [fresh]
  tail := by simp [fresh]
  released_le := by simp [fresh]
  bound := Nat.le_add_right _ _
  tailed_le := le_rfl
  consumed := rfl
  stored := by simp

namespace RecvFifo.Holds

variable {link : Link} {fifo next : RecvFifo} {published : List (List UInt8)}
  {released tailed : ℕ}

/-- The producer's further slices do not matter to the receive FIFO. -/
theorem extend (holds : fifo.Holds link published released tailed) {more : List (List UInt8)}
    (grown : published <+: more) : fifo.Holds link more released tailed := by
  obtain ⟨rest, rfl⟩ := grown
  have small := holds.tailed_le
  have behind := holds.released_le
  refine { holds with tailed_le := ?_, consumed := ?_, stored := ?_ }
  · exact small.trans (by simp)
  · rw [holds.consumed, List.take_append_of_le_length (by omega)]
  · intro k payload low high found
    rw [List.getElem?_append_left (high.trans_le small)] at found
    exact holds.stored k payload low high found

theorem read (holds : fifo.Holds link published released tailed)
    (step : fifo.read link = some next) : next.Holds link published released tailed := by
  unfold RecvFifo.read at step
  split_ifs at step with guard
  obtain ⟨idle, below⟩ := guard
  obtain rfl := Option.some.inj step
  rw [holds.head, holds.tail, link.step_lt_step] at below
  obtain ⟨slice, found⟩ : ∃ slice, published[released]? = some slice :=
    ⟨_, List.getElem?_eq_getElem (below.trans_le holds.tailed_le)⟩
  obtain ⟨size, bytes⟩ := holds.stored released slice le_rfl below found
  refine { holds with released_le := below, consumed := ?_ }
  show fifo.consumed ++ _ = published.take (released + 1)
  rw [holds.consumed, idle, holds.head, size, bytes, List.take_add_one, found]
  rfl

theorem release (holds : fifo.Holds link published released tailed)
    (step : fifo.release link = some next) : next.Holds link published (released + 1) tailed := by
  unfold RecvFifo.release at step
  split_ifs at step with busy
  obtain rfl := Option.some.inj step
  have room := holds.released_le
  have consumed := holds.consumed
  simp only [busy, Bool.toNat_true] at room consumed
  refine { head := ?_, tail := holds.tail, released_le := room, bound := ?_,
           tailed_le := holds.tailed_le, consumed := consumed, stored := ?_ }
  · show fifo.head + link.stepIncrement = link.step (released + 1)
    rw [holds.head, link.step_succ]
  · have bound := holds.bound
    show fifo.tail ≤ fifo.head + link.stepIncrement + link.slotCount
    omega
  · intro k payload low high found
    exact holds.stored k payload (Nat.le_of_succ_le low) high found

/-- A slot with credit is none of those the consumer may still read. -/
theorem slot_ne (holds : fifo.Holds link published released tailed)
    (credit : link.step tailed + link.stepIncrement ≤ fifo.head + link.slotCount) {k : ℕ}
    (low : released ≤ k) (high : k < tailed) :
    link.slot (link.step k) ≠ link.slot (link.step tailed) := by
  have bound := holds.bound
  have behind := holds.released_le
  rw [holds.head, link.step_succ] at credit
  rw [holds.head, holds.tail] at bound
  refine link.slot_ne released high.ne low ?_ (by omega) credit
  exact (link.step_le_step.mpr high).trans bound

/-- Bytes of the next slice are written into its slot. -/
theorem land (holds : fifo.Holds link published released tailed)
    (publishable : ∀ payload ∈ published, link.Publishable payload)
    (credit : link.step tailed + link.stepIncrement ≤ fifo.head + link.slotCount) {cursor : ℕ}
    {bytes : List UInt8} (inside : cursor + bytes.length ≤ link.slotBytes) :
    { fifo with
      data := Memory.writeBlock fifo.data
        (link.recvAddr (link.slot (link.step tailed)) + cursor) bytes }.Holds link published
      released tailed := by
  refine { holds with stored := ?_ }
  intro k payload low high found
  obtain ⟨size, stored⟩ := holds.stored k payload low high found
  have payload_fits := (publishable payload (List.mem_of_getElem? found)).1
  refine ⟨size, ?_⟩
  rw [Memory.block_writeBlock_apart]
  · exact stored
  · exact Memory.slots_apart link.recvData (holds.slot_ne credit low high) payload_fits inside

/-- The size of the next slice is stored. -/
theorem storeSize (holds : fifo.Holds link published released tailed)
    (credit : link.step tailed + link.stepIncrement ≤ fifo.head + link.slotCount) (size : ℕ) :
    { fifo with
      sizes := Function.update fifo.sizes (link.slot (link.step tailed)) size }.Holds link published
      released tailed := by
  refine { holds with stored := ?_ }
  intro k payload low high found
  obtain ⟨same, stored⟩ := holds.stored k payload low high found
  refine ⟨?_, stored⟩
  rw [← same]
  exact Function.update_of_ne (holds.slot_ne credit low high) _ _

/-- `recv_tail` is stored over a slice that is in place. -/
theorem publishTail (holds : fifo.Holds link published released tailed)
    (credit : link.step tailed + link.stepIncrement ≤ fifo.head + link.slotCount)
    {payload : List UInt8} (found : published[tailed]? = some payload)
    (size : fifo.sizes (link.slot (link.step tailed)) = payload.length)
    (bytes : Memory.block fifo.data (link.recvAddr (link.slot (link.step tailed))) payload.length =
      payload) :
    { fifo with tail := link.step (tailed + 1) }.Holds link published released (tailed + 1) := by
  refine { holds with tail := rfl, released_le := ?_, bound := ?_, tailed_le := ?_, stored := ?_ }
  · exact holds.released_le.trans (Nat.le_succ _)
  · rwa [link.step_succ] at credit
  · exact (List.getElem?_eq_some_iff.mp found).1
  · intro k slice low high at_k
    rcases Nat.lt_succ_iff_lt_or_eq.mp high with below | rfl
    · exact holds.stored k slice low below at_k
    · obtain rfl : payload = slice := Option.some.inj (found.symm.trans at_k)
      exact ⟨size, bytes⟩

end RecvFifo.Holds

/-! ### The stream -/

/-- The frames of a list of slices, one behind the other. -/
def stream (slices : List (List UInt8)) : List UInt8 := (slices.map frame).flatten

theorem stream_append (first second : List (List UInt8)) :
    stream (first ++ second) = stream first ++ stream second := by
  simp [stream]

theorem stream_cons (payload : List UInt8) (slices : List (List UInt8)) :
    stream (payload :: slices) = frame payload ++ stream slices := by
  simp [stream]

theorem stream_take_drop (slices : List (List UInt8)) (count : ℕ) :
    stream (slices.take count) ++ stream (slices.drop count) = stream slices := by
  rw [← stream_append, List.take_append_drop]

theorem stream_take_succ {slices : List (List UInt8)} {k : ℕ} {payload : List UInt8}
    (found : slices[k]? = some payload) :
    stream (slices.take (k + 1)) = stream (slices.take k) ++ frame payload := by
  rw [List.take_add_one, found, stream_append]
  simp [stream]

theorem stream_drop {slices : List (List UInt8)} {k : ℕ} {payload : List UInt8}
    (found : slices[k]? = some payload) :
    stream (slices.drop k) = frame payload ++ stream (slices.drop (k + 1)) := by
  obtain ⟨inside, same⟩ := List.getElem?_eq_some_iff.mp found
  rw [List.drop_eq_getElem_cons inside, same, stream_cons]

/-- What the send proxy has written of the frame of slice `completed`. -/
def SendOk (link : Link) (published : List (List UInt8)) (completed : ℕ) (sent : List UInt8) :
    SendPc → Prop
  | .top => sent = []
  | .size => sent = [] ∧ completed < published.length
  | .send payloadBytes iovs =>
      ∃ payload count, published[completed]? = some payload ∧ payloadBytes = payload.length ∧
        count ≤ (frame payload).length ∧
        iovs = advanceIov
          (sendSlice (link.sendAddr (link.slot (link.step completed))) payload.length) count ∧
        sent = (frame payload).take count
  | .storeHead => ∃ payload, published[completed]? = some payload ∧ sent = frame payload
  | .payloadExceedsCapacity => False

/-- What the receive proxy has read of the frame of slice `tailed`, and where it put it. -/
def RecvOk (link : Link) (fifo : RecvFifo) (published : List (List UInt8)) (tailed : ℕ)
    (got : List UInt8) (pc : RecvPc) : Prop :=
  let slot := link.slot (link.step tailed)
  match pc with
  | .top => got = []
  | .header received => got = received ∧ received.length ≤ 4
  | .payload payloadBytes cursor =>
      ∃ payload, published[tailed]? = some payload ∧ payloadBytes = payload.length ∧
        cursor ≤ payload.length ∧ got = sliceHeader payload.length ++ payload.take cursor ∧
        Memory.block fifo.data (link.recvAddr slot) cursor = payload.take cursor
  | .storeSize payloadBytes =>
      ∃ payload, published[tailed]? = some payload ∧ payloadBytes = payload.length ∧
        got = frame payload ∧
        Memory.block fifo.data (link.recvAddr slot) payload.length = payload
  | .storeTail =>
      ∃ payload, published[tailed]? = some payload ∧ got = frame payload ∧
        fifo.sizes slot = payload.length ∧
        Memory.block fifo.data (link.recvAddr slot) payload.length = payload
  | .payloadExceedsCapacity => False

/-- The receive proxy has passed its credit test. -/
def RecvPc.credited : RecvPc → Bool
  | .top => false
  | .header _ | .payload _ _ | .storeSize _ | .storeTail | .payloadExceedsCapacity => true

/-- The joint invariant of an edge: `completed` slices are sent, `tailed` received and `released`
consumed, and the frames in progress account for the rest of the stream. -/
structure Inv (link : Link) (state : State) (completed tailed released : ℕ)
    (sent got : List UInt8) : Prop where
  sendFifo : state.sender.fifo.Holds link completed
  recvFifo : state.receiver.fifo.Holds link state.sender.fifo.published released tailed
  sendAt : state.sender.proxy.step = link.step completed
  recvAt : state.receiver.proxy.step = link.step tailed
  sender : SendOk link state.sender.fifo.published completed sent state.sender.proxy.pc
  receiver : RecvOk link state.receiver.fifo state.sender.fifo.published tailed got
    state.receiver.proxy.pc
  credit : state.receiver.proxy.pc.credited = true →
    link.step tailed + link.stepIncrement ≤ state.receiver.fifo.head + link.slotCount
  balance : stream (state.sender.fifo.published.take tailed) ++ (got ++ state.wire) =
    stream (state.sender.fifo.published.take completed) ++ sent

theorem initial_inv (link : Link) : Inv link (initial link) 0 0 0 [] [] where
  sendFifo := SendFifo.fresh_holds link
  recvFifo := RecvFifo.fresh_holds link
  sendAt := (link.step_zero).symm
  recvAt := (link.step_zero).symm
  sender := rfl
  receiver := rfl
  credit := by simp [initial, RecvPc.credited]
  balance := rfl

section

variable {link : Link} {state : State} {completed tailed released : ℕ} {sent got : List UInt8}

/-- The part of a frame that was sent begins the rest of the stream. -/
theorem SendOk.sent_prefix {published : List (List UInt8)} {pc : SendPc}
    (sender : SendOk link published completed sent pc) :
    sent <+: stream (published.drop completed) := by
  cases pc with
  | top => exact sender ▸ List.nil_prefix
  | size => exact sender.1 ▸ List.nil_prefix
  | send payloadBytes iovs =>
      obtain ⟨payload, count, found, -, -, -, rfl⟩ := sender
      rw [stream_drop found]
      exact (List.take_prefix _ _).trans (List.prefix_append _ _)
  | storeHead =>
      obtain ⟨payload, found, rfl⟩ := sender
      rw [stream_drop found]
      exact List.prefix_append _ _
  | payloadExceedsCapacity => exact sender.elim

/-- What the receive proxy has read and will read begins with the frames it has not finished. -/
theorem Inv.got_prefix (inv : Inv link state completed tailed released sent got) :
    got ++ state.wire <+: stream (state.sender.fifo.published.drop tailed) := by
  rw [← List.prefix_append_right_inj (stream (state.sender.fifo.published.take tailed)),
    inv.balance, stream_take_drop,
    ← stream_take_drop state.sender.fifo.published completed, List.prefix_append_right_inj]
  exact inv.sender.sent_prefix

/-- The producer's further slices change neither proxy. -/
theorem SendOk.extend {published more : List (List UInt8)} {pc : SendPc}
    (sender : SendOk link published completed sent pc) (grown : published <+: more) :
    SendOk link more completed sent pc := by
  cases pc with
  | top => exact sender
  | size => exact ⟨sender.1, sender.2.trans_le grown.length_le⟩
  | send payloadBytes iovs =>
      obtain ⟨payload, count, found, rest⟩ := sender
      exact ⟨payload, count, Queue.get_of_prefix grown found, rest⟩
  | storeHead =>
      obtain ⟨payload, found, rest⟩ := sender
      exact ⟨payload, Queue.get_of_prefix grown found, rest⟩
  | payloadExceedsCapacity => exact sender

theorem RecvOk.extend {fifo : RecvFifo} {published more : List (List UInt8)} {pc : RecvPc}
    (receiver : RecvOk link fifo published tailed got pc) (grown : published <+: more) :
    RecvOk link fifo more tailed got pc := by
  cases pc with
  | top | header | payloadExceedsCapacity => exact receiver
  | payload | storeSize | storeTail =>
      obtain ⟨payload, found, rest⟩ := receiver
      exact ⟨payload, Queue.get_of_prefix grown found, rest⟩

/-- The consumer touches neither data nor sizes. -/
theorem RecvOk.frame {fifo next : RecvFifo} {published : List (List UInt8)} {pc : RecvPc}
    (receiver : RecvOk link fifo published tailed got pc) (data : next.data = fifo.data)
    (sizes : next.sizes = fifo.sizes) : RecvOk link next published tailed got pc := by
  cases pc with
  | payloadExceedsCapacity => exact receiver
  | _ => simpa only [RecvOk, data, sizes] using receiver

/-- The producer publishes more. -/
theorem Inv.extend (inv : Inv link state completed tailed released sent got) {fifo : SendFifo}
    (holds : fifo.Holds link completed) (grown : state.sender.fifo.published <+: fifo.published) :
    Inv link { state with sender := { state.sender with fifo := fifo } } completed tailed released
      sent got where
  sendFifo := holds
  recvFifo := inv.recvFifo.extend grown
  sendAt := inv.sendAt
  recvAt := inv.recvAt
  sender := inv.sender.extend grown
  receiver := inv.receiver.extend grown
  credit := inv.credit
  balance := by
    obtain ⟨rest, same⟩ := grown
    show stream (fifo.published.take tailed) ++ _ = stream (fifo.published.take completed) ++ _
    rw [← same, List.take_append_of_le_length inv.recvFifo.tailed_le,
      List.take_append_of_le_length inv.sendFifo.completed_le]
    exact inv.balance

/-- Every move of the send proxy other than a `sendmsg`. -/
theorem Inv.send (inv : Inv link state completed tailed released sent got) {side : SendSide}
    (step : sendStep link state.sender = some side) :
    ∃ completed sent,
      Inv link { state with sender := side } completed tailed released sent got := by
  have sender := inv.sender
  have sendAt := inv.sendAt
  unfold sendStep at step
  cases at_pc : state.sender.proxy.pc <;> rw [at_pc] at sender <;> simp only [at_pc] at step
  case top =>
    split_ifs at step with idle
    · obtain rfl := Option.some.inj step
      exact ⟨completed, sent, inv⟩
    · obtain rfl := Option.some.inj step
      refine ⟨completed, sent, { inv with sender := ⟨sender, ?_⟩ }⟩
      rwa [sendAt, inv.sendFifo.tail, link.step_le_step, Nat.not_le] at idle
  case size =>
    obtain ⟨rfl, published⟩ := sender
    obtain ⟨payload, found⟩ : ∃ payload, state.sender.fifo.published[completed]? = some payload :=
      ⟨_, List.getElem?_eq_getElem published⟩
    have size := (inv.sendFifo.stored completed payload le_rfl found).1
    have fits := (inv.sendFifo.publishable payload (List.mem_of_getElem? found)).1
    rw [sendAt, size, if_neg (Nat.not_lt.mpr fits)] at step
    obtain rfl := Option.some.inj step
    refine ⟨completed, [], { inv with sender := ⟨payload, 0, found, rfl, Nat.zero_le _, ?_, rfl⟩ }⟩
    exact (advanceIov_zero (sendSlice_nonempty _ _)).symm
  case send payloadBytes iovs =>
    cases iovs with
    | cons iov rest => cases step
    | nil =>
        obtain rfl := Option.some.inj step
        obtain ⟨payload, count, found, rfl, within, exhausted, rfl⟩ := sender
        -- An exhausted gather list means that the whole frame is on the wire.
        have stored := (inv.sendFifo.stored completed payload le_rfl found).2
        have left_over := gather_advanceIov (sliceHeader payload.length) state.sender.fifo.data
          (sendSlice (link.sendAddr (link.slot (link.step completed))) payload.length) count
        rw [← exhausted, gather_sendSlice, stored] at left_over
        have whole : (frame payload).length ≤ count := List.drop_eq_nil_iff.mp left_over.symm
        refine ⟨completed, _, { inv with sender := ⟨payload, found, ?_⟩ }⟩
        exact List.take_of_length_le whole
  case storeHead =>
    obtain rfl := Option.some.inj step
    obtain ⟨payload, found, rfl⟩ := sender
    have next : state.sender.proxy.step + link.stepIncrement = link.step (completed + 1) := by
      rw [sendAt, link.step_succ]
    have inside : completed < state.sender.fifo.published.length :=
      (List.getElem?_eq_some_iff.mp found).1
    refine ⟨completed + 1, [], ?_⟩
    refine { sendFifo := ?_, recvFifo := inv.recvFifo, sendAt := next, recvAt := inv.recvAt,
             sender := rfl, receiver := inv.receiver, credit := inv.credit, balance := ?_ }
    · rw [next]
      exact inv.sendFifo.release inside
    · show _ = stream (state.sender.fifo.published.take (completed + 1)) ++ []
      rw [stream_take_succ found, List.append_nil]
      exact inv.balance
  case payloadExceedsCapacity => cases step

/-- `sendmsg` moves the next bytes of the frame to the wire. -/
theorem Inv.sendmsg (inv : Inv link state completed tailed released sent got) {count : ℕ}
    {side : SendSide} {bytes : List UInt8}
    (step : Socket.sendmsg state.sender count = some (side, bytes)) :
    ∃ sent, Inv link { state with sender := side, wire := state.wire ++ bytes } completed tailed
      released sent got := by
  have sender := inv.sender
  unfold Socket.sendmsg at step
  cases at_pc : state.sender.proxy.pc <;> rw [at_pc] at sender <;> simp only [at_pc] at step
  case send payloadBytes iovs =>
    obtain ⟨payload, written, found, rfl, within, rfl, rfl⟩ := sender
    have stored := (inv.sendFifo.stored completed payload le_rfl found).2
    rw [gather_advanceIov, gather_sendSlice, stored, ← frame] at step
    split_ifs at step with guard
    obtain ⟨rfl, rfl⟩ := Prod.mk.inj (Option.some.inj step)
    have enough : written + count ≤ (frame payload).length := by
      have := guard.2
      rw [List.length_drop] at this
      omega
    refine ⟨(frame payload).take (written + count), { inv with sender := ?_, balance := ?_ }⟩
    · refine ⟨payload, written + count, found, rfl, enough, ?_, rfl⟩
      exact advanceIov_advanceIov _ _ _
    · have longer := congrArg (· ++ ((frame payload).drop written).take count) inv.balance
      simpa only [List.take_add, List.append_assoc, SendSide.goto] using longer
  case top | size | storeHead | payloadExceedsCapacity => cases step

/-- The header the receive proxy collects is that of the next slice. -/
theorem Inv.header_eq (inv : Inv link state completed tailed released sent got)
    (four : got.length = 4) :
    ∃ payload, state.sender.fifo.published[tailed]? = some payload ∧
      got = sliceHeader payload.length := by
  have begins := (List.prefix_append got state.wire).trans inv.got_prefix
  cases unread : state.sender.fifo.published.drop tailed with
  | nil =>
      rw [unread] at begins
      have short := begins.length_le
      simp [stream, four] at short
  | cons payload rest =>
      rw [unread, stream_cons, frame, List.append_assoc] at begins
      refine ⟨payload, ?_, ?_⟩
      · rw [← List.head?_drop, unread, List.head?_cons]
      · exact (List.append_inj (List.prefix_iff_eq_append.mp begins) (by simp [four])).1

/-- The payload bytes the receive proxy reads are those of the next slice. -/
theorem Inv.take_eq {payload : List UInt8} {cursor count : ℕ}
    (inv : Inv link state completed tailed released sent
      (sliceHeader payload.length ++ payload.take cursor))
    (found : state.sender.fifo.published[tailed]? = some payload)
    (within : cursor + count ≤ payload.length) (available : count ≤ state.wire.length) :
    payload.take cursor ++ state.wire.take count = payload.take (cursor + count) := by
  have begins := inv.got_prefix
  rw [stream_drop found, frame, List.append_assoc, List.append_assoc,
    List.prefix_append_right_inj] at begins
  have length : (payload.take cursor).length = cursor := List.length_take_of_le (by omega)
  have reached : cursor + count ≤ (payload.take cursor ++ state.wire).length := by
    rw [List.length_append, length]
    omega
  have cut := (List.prefix_iff_eq_take.mp ((List.take_prefix (cursor + count) _).trans begins)).symm
  rw [List.length_take_of_le reached, List.take_append_of_le_length within] at cut
  rw [cut, List.take_append, length, Nat.add_sub_cancel_left, List.take_take,
    Nat.min_eq_right (Nat.le_add_right _ _)]

/-- Every move of the receive proxy other than a `recv`. -/
theorem Inv.recv (inv : Inv link state completed tailed released sent got) {side : RecvSide}
    (step : recvStep link state.receiver = some side) :
    ∃ tailed got, Inv link { state with receiver := side } completed tailed released sent got := by
  have receiver := inv.receiver
  have recvAt := inv.recvAt
  unfold recvStep at step
  cases at_pc : state.receiver.proxy.pc <;> rw [at_pc] at receiver <;> simp only [at_pc] at step
  case top =>
    split_ifs at step with blocked
    · obtain rfl := Option.some.inj step
      exact ⟨tailed, got, inv⟩
    · obtain rfl := Option.some.inj step
      rw [recvAt] at blocked
      exact ⟨tailed, got, { inv with
        receiver := ⟨receiver, Nat.zero_le _⟩
        credit := fun _ => Nat.not_lt.mp blocked }⟩
  case header received =>
    have credit := inv.credit (by rw [at_pc]; rfl)
    obtain ⟨rfl, short⟩ := receiver
    split_ifs at step with incomplete oversized
    · obtain ⟨payload, found, same⟩ := inv.header_eq (by omega)
      have publishable := inv.sendFifo.publishable payload (List.mem_of_getElem? found)
      rw [same, sliceHeader, ofBigEndian_bigEndian publishable.2] at oversized
      exact absurd publishable.1 (Nat.not_le.mpr oversized)
    · obtain ⟨payload, found, same⟩ := inv.header_eq (by omega)
      have publishable := inv.sendFifo.publishable payload (List.mem_of_getElem? found)
      have size : ofBigEndian got = payload.length := by
        rw [same]
        exact ofBigEndian_bigEndian publishable.2
      obtain rfl := Option.some.inj step
      refine ⟨tailed, got, { inv with receiver := ?_, credit := fun _ => credit }⟩
      exact ⟨payload, found, size, Nat.zero_le _, by simpa using same, rfl⟩
  case payload payloadBytes cursor =>
    have credit := inv.credit (by rw [at_pc]; rfl)
    obtain ⟨payload, found, rfl, within, rfl, bytes⟩ := receiver
    split_ifs at step with unfinished
    obtain rfl := Option.some.inj step
    obtain rfl : cursor = payload.length := by omega
    rw [List.take_length] at bytes
    refine ⟨tailed, _, { inv with receiver := ?_, credit := fun _ => credit }⟩
    exact ⟨payload, found, rfl, by rw [List.take_length, frame], bytes⟩
  case storeSize payloadBytes =>
    have credit := inv.credit (by rw [at_pc]; rfl)
    obtain ⟨payload, found, rfl, rfl, bytes⟩ := receiver
    obtain rfl := Option.some.inj step
    rw [recvAt]
    refine ⟨tailed, _, { inv with
      recvFifo := inv.recvFifo.storeSize credit payload.length, receiver := ?_,
      credit := fun _ => credit }⟩
    exact ⟨payload, found, rfl, Function.update_self _ _ _, bytes⟩
  case storeTail =>
    have credit := inv.credit (by rw [at_pc]; rfl)
    obtain ⟨payload, found, rfl, size, bytes⟩ := receiver
    obtain rfl := Option.some.inj step
    have next : state.receiver.proxy.step + link.stepIncrement = link.step (tailed + 1) := by
      rw [recvAt, link.step_succ]
    refine ⟨tailed + 1, [], ?_⟩
    refine { sendFifo := inv.sendFifo, recvFifo := ?_, sendAt := inv.sendAt, recvAt := next,
             sender := inv.sender, receiver := rfl, credit := by simp [RecvPc.credited],
             balance := ?_ }
    · rw [next]
      exact inv.recvFifo.publishTail credit found size bytes
    · rw [stream_take_succ found, List.nil_append, List.append_assoc]
      exact inv.balance
  case payloadExceedsCapacity => cases step

/-- `recv` moves the next bytes of the stream into the header or the slot. -/
theorem Inv.recvBytes (inv : Inv link state completed tailed released sent got) {count : ℕ}
    (available : count ≤ state.wire.length) {side : RecvSide}
    (step : Socket.recvBytes link state.receiver (state.wire.take count) = some side) :
    ∃ got, Inv link { state with receiver := side, wire := state.wire.drop count } completed tailed
      released sent got := by
  have receiver := inv.receiver
  have length : (state.wire.take count).length = count := List.length_take_of_le available
  unfold Socket.recvBytes at step
  cases at_pc : state.receiver.proxy.pc <;> rw [at_pc] at receiver <;> simp only [at_pc] at step
  case header received =>
    obtain ⟨rfl, short⟩ := receiver
    split_ifs at step with guard
    obtain rfl := Option.some.inj step
    refine ⟨got ++ state.wire.take count, { inv with
      receiver := ⟨rfl, ?_⟩, credit := fun _ => inv.credit (by rw [at_pc]; rfl), balance := ?_ }⟩
    · rw [List.length_append]
      exact guard.2
    · rw [List.append_assoc, List.take_append_drop]
      exact inv.balance
  case payload payloadBytes cursor =>
    have credit := inv.credit (by rw [at_pc]; rfl)
    obtain ⟨payload, found, rfl, within, rfl, bytes⟩ := receiver
    split_ifs at step with guard
    obtain rfl := Option.some.inj step
    have inside : cursor + count ≤ payload.length := length ▸ guard.2
    have fits := (inv.sendFifo.publishable payload (List.mem_of_getElem? found)).1
    have grown := inv.take_eq found inside available
    rw [inv.recvAt, length]
    refine ⟨sliceHeader payload.length ++ payload.take (cursor + count), { inv with
      recvFifo := inv.recvFifo.land inv.sendFifo.publishable credit (by omega),
      receiver := ⟨payload, found, rfl, inside, rfl, ?_⟩, credit := fun _ => credit,
      balance := ?_ }⟩
    · show Memory.block (Memory.writeBlock _ _ _) _ (cursor + count) = _
      have placed := Memory.block_writeBlock state.receiver.fifo.data
        (link.recvAddr (link.slot (link.step tailed)) + cursor) (state.wire.take count)
      rw [length] at placed
      rw [Memory.block_append, Memory.block_writeBlock_apart _ _ (.inl le_rfl), bytes, placed,
        grown]
    · rw [← grown, List.append_assoc, List.append_assoc, List.take_append_drop,
        ← List.append_assoc _ _ state.wire]
      exact inv.balance
  case top | storeSize | storeTail | payloadExceedsCapacity => cases step

/-- Every move of the edge keeps the joint invariant. -/
theorem Inv.step (inv : Inv link state completed tailed released sent got) {label : Label}
    {next : State} (taken : Socket.step link state label = some next) :
    ∃ completed tailed released sent got, Inv link next completed tailed released sent got := by
  cases label with
  | fill payload =>
      obtain ⟨fifo, filled, rfl⟩ := Option.map_eq_some_iff.mp taken
      obtain ⟨holds, same⟩ := inv.sendFifo.fill filled
      exact ⟨completed, tailed, released, sent, got, inv.extend holds (same ▸ List.prefix_rfl)⟩
  | publish =>
      obtain ⟨fifo, published, rfl⟩ := Option.map_eq_some_iff.mp taken
      obtain ⟨holds, grown⟩ := inv.sendFifo.publish published
      exact ⟨completed, tailed, released, sent, got, inv.extend holds grown⟩
  | send =>
      obtain ⟨side, moved, rfl⟩ := Option.map_eq_some_iff.mp taken
      obtain ⟨completed, sent, kept⟩ := inv.send moved
      exact ⟨completed, tailed, released, sent, got, kept⟩
  | sendmsg count =>
      obtain ⟨⟨side, bytes⟩, written, rfl⟩ := Option.map_eq_some_iff.mp taken
      obtain ⟨sent, kept⟩ := inv.sendmsg written
      exact ⟨completed, tailed, released, sent, got, kept⟩
  | recv =>
      obtain ⟨side, moved, rfl⟩ := Option.map_eq_some_iff.mp taken
      obtain ⟨tailed, got, kept⟩ := inv.recv moved
      exact ⟨completed, tailed, released, sent, got, kept⟩
  | recvBytes count =>
      simp only [Socket.step] at taken
      split_ifs at taken with available
      obtain ⟨side, moved, rfl⟩ := Option.map_eq_some_iff.mp taken
      obtain ⟨got, kept⟩ := inv.recvBytes available moved
      exact ⟨completed, tailed, released, sent, got, kept⟩
  | read =>
      obtain ⟨fifo, read, rfl⟩ := Option.map_eq_some_iff.mp taken
      have frame : fifo.data = state.receiver.fifo.data ∧ fifo.sizes = state.receiver.fifo.sizes ∧
          fifo.head = state.receiver.fifo.head := by
        unfold RecvFifo.read at read
        split_ifs at read
        obtain rfl := Option.some.inj read
        exact ⟨rfl, rfl, rfl⟩
      obtain ⟨data, sizes, head⟩ := frame
      exact ⟨completed, tailed, released, sent, got, { inv with
        recvFifo := inv.recvFifo.read read
        receiver := inv.receiver.frame data sizes
        credit := head ▸ inv.credit }⟩
  | release =>
      obtain ⟨fifo, release, rfl⟩ := Option.map_eq_some_iff.mp taken
      have frame : fifo.data = state.receiver.fifo.data ∧ fifo.sizes = state.receiver.fifo.sizes ∧
          fifo.head = state.receiver.fifo.head + link.stepIncrement := by
        unfold RecvFifo.release at release
        split_ifs at release
        obtain rfl := Option.some.inj release
        exact ⟨rfl, rfl, rfl⟩
      obtain ⟨data, sizes, head⟩ := frame
      refine ⟨completed, tailed, released + 1, sent, got, { inv with
        recvFifo := inv.recvFifo.release release
        receiver := inv.receiver.frame data sizes
        credit := ?_ }⟩
      intro credited
      have credit := inv.credit credited
      show _ ≤ fifo.head + _
      omega

end

theorem Reachable.good {link : Link} {state : State} (reach : Reachable link state) :
    ∃ completed tailed released sent got, Inv link state completed tailed released sent got := by
  refine StepSystem.Reachable.invariant
    (fun state => ∃ completed tailed released sent got,
      Inv link state completed tailed released sent got)
    ?_ ⟨0, 0, 0, [], [], initial_inv link⟩ reach
  rintro state label next ⟨completed, tailed, released, sent, got, inv⟩ taken
  exact inv.step taken

/-! ### The theorem -/

/-- A slot of the receive FIFO may be written: it belongs to a slice `recv_tail` does not cover,
and every earlier slice in it was released by the consumer. -/
def Free (link : Link) (fifo : RecvFifo) (slot : ℕ) : Prop :=
  ∃ k, slot = link.slot (link.step k) ∧ fifo.tail ≤ link.step k ∧
    ∀ j < k, link.slot (link.step j) = slot → link.step j + link.stepIncrement ≤ fifo.head

/-- Delivery over a socket edge, in one state and the steps from it. -/
structure SafeDelivery (link : Link) (state : State) : Prop where
  /-- The slices read are the slices published, in order. -/
  inOrder : ∀ (k : ℕ) (slice : List UInt8), state.receiver.fifo.consumed[k]? = some slice →
    state.sender.fifo.published[k]? = some slice
  /-- Bytes are only written into free slots. -/
  dataFree : ∀ label next, step link state label = some next → ∀ addr,
    next.receiver.fifo.data addr ≠ state.receiver.fifo.data addr →
      ∃ slot, Free link state.receiver.fifo slot ∧ link.recvAddr slot ≤ addr ∧
        addr < link.recvAddr slot + link.slotBytes
  /-- Sizes are only written for free slots. -/
  sizeFree : ∀ label next, step link state label = some next → ∀ slot,
    next.receiver.fifo.sizes slot ≠ state.receiver.fifo.sizes slot →
      Free link state.receiver.fifo slot
  /-- `send_head` does not pass `send_tail`. -/
  sendCounters : state.sender.fifo.head ≤ state.sender.fifo.tail
  /-- `recv_head` does not pass `recv_tail`, which stays within the FIFO. -/
  recvCounters : state.receiver.fifo.head ≤ state.receiver.fifo.tail ∧
    state.receiver.fifo.tail ≤ state.receiver.fifo.head + link.slotCount
  /-- Neither proxy meets a slice that exceeds its capacity. -/
  noException : state.sender.proxy.pc ≠ .payloadExceedsCapacity ∧
    state.receiver.proxy.pc ≠ .payloadExceedsCapacity

/-- What a step can do to the contents of the receive FIFO. -/
theorem step_contents {link : Link} {state next : State} {label : Label}
    (taken : step link state label = some next) :
    (next.receiver.fifo.data = state.receiver.fifo.data ∨
      ∃ payloadBytes cursor bytes, state.receiver.proxy.pc = .payload payloadBytes cursor ∧
        cursor + bytes.length ≤ payloadBytes ∧
        next.receiver.fifo.data = Memory.writeBlock state.receiver.fifo.data
          (link.recvAddr (link.slot state.receiver.proxy.step) + cursor) bytes) ∧
    (next.receiver.fifo.sizes = state.receiver.fifo.sizes ∨
      ∃ payloadBytes, state.receiver.proxy.pc = .storeSize payloadBytes ∧
        next.receiver.fifo.sizes = Function.update state.receiver.fifo.sizes
          (link.slot state.receiver.proxy.step) payloadBytes) := by
  cases label with
  | fill payload =>
      obtain ⟨fifo, -, rfl⟩ := Option.map_eq_some_iff.mp taken
      exact ⟨.inl rfl, .inl rfl⟩
  | publish =>
      obtain ⟨fifo, -, rfl⟩ := Option.map_eq_some_iff.mp taken
      exact ⟨.inl rfl, .inl rfl⟩
  | send =>
      obtain ⟨side, -, rfl⟩ := Option.map_eq_some_iff.mp taken
      exact ⟨.inl rfl, .inl rfl⟩
  | sendmsg count =>
      obtain ⟨result, -, rfl⟩ := Option.map_eq_some_iff.mp taken
      exact ⟨.inl rfl, .inl rfl⟩
  | recv =>
      obtain ⟨side, moved, rfl⟩ := Option.map_eq_some_iff.mp taken
      unfold recvStep at moved
      cases at_pc : state.receiver.proxy.pc <;> simp only [at_pc] at moved
      case storeSize payloadBytes =>
        obtain rfl := Option.some.inj moved
        exact ⟨.inl rfl, .inr ⟨payloadBytes, rfl, rfl⟩⟩
      case storeTail => exact Option.some.inj moved ▸ ⟨.inl rfl, .inl rfl⟩
      case payloadExceedsCapacity => cases moved
      all_goals
        split_ifs at moved
        all_goals exact Option.some.inj moved ▸ ⟨.inl rfl, .inl rfl⟩
  | recvBytes count =>
      simp only [step] at taken
      split_ifs at taken
      obtain ⟨side, moved, rfl⟩ := Option.map_eq_some_iff.mp taken
      unfold recvBytes at moved
      cases at_pc : state.receiver.proxy.pc <;> simp only [at_pc] at moved
      case header received =>
        split_ifs at moved
        exact Option.some.inj moved ▸ ⟨.inl rfl, .inl rfl⟩
      case payload payloadBytes cursor =>
        split_ifs at moved with guard
        obtain rfl := Option.some.inj moved
        exact ⟨.inr ⟨payloadBytes, cursor, _, rfl, guard.2, rfl⟩, .inl rfl⟩
      all_goals cases moved
  | read =>
      obtain ⟨fifo, read, rfl⟩ := Option.map_eq_some_iff.mp taken
      unfold RecvFifo.read at read
      split_ifs at read
      exact Option.some.inj read ▸ ⟨.inl rfl, .inl rfl⟩
  | release =>
      obtain ⟨fifo, release, rfl⟩ := Option.map_eq_some_iff.mp taken
      unfold RecvFifo.release at release
      split_ifs at release
      exact Option.some.inj release ▸ ⟨.inl rfl, .inl rfl⟩

/-- The slot the receive proxy works on is free. -/
theorem Inv.free {link : Link} {state : State} {completed tailed released : ℕ}
    {sent got : List UInt8} (inv : Inv link state completed tailed released sent got)
    (credited : state.receiver.proxy.pc.credited = true) :
    Free link state.receiver.fifo (link.slot state.receiver.proxy.step) := by
  refine ⟨tailed, by rw [inv.recvAt], inv.recvFifo.tail.le, ?_⟩
  intro j earlier same
  rw [inv.recvAt] at same
  rw [inv.recvFifo.head, link.step_succ, link.step_le_step]
  by_contra unreleased
  exact inv.recvFifo.slot_ne (inv.credit credited) (by omega) earlier same

/-- A socket edge delivers every slice once, in order and unchanged, in every interleaving and for
every fragmentation of the stream. -/
theorem socket_delivery {link : Link} {state : State} (reach : Reachable link state) :
    SafeDelivery link state := by
  obtain ⟨completed, tailed, released, sent, got, inv⟩ := reach.good
  refine { inOrder := ?_, dataFree := ?_, sizeFree := ?_, sendCounters := ?_, recvCounters := ?_,
           noException := ?_ }
  · intro k slice read
    rw [inv.recvFifo.consumed] at read
    exact Queue.get_of_prefix (List.take_prefix _ _) read
  · intro label next taken addr changed
    rcases (step_contents taken).1 with same | ⟨payloadBytes, cursor, bytes, at_pc, within, written⟩
    · exact absurd (congrFun same addr) changed
    · have receiver := inv.receiver
      rw [at_pc] at receiver
      obtain ⟨payload, found, rfl, -⟩ := receiver
      have fits := (inv.sendFifo.publishable payload (List.mem_of_getElem? found)).1
      rw [written] at changed
      obtain ⟨above, below⟩ := Memory.inside_of_writeBlock_ne changed
      exact ⟨_, inv.free (by rw [at_pc]; rfl), by omega, by omega⟩
  · intro label next taken slot changed
    rcases (step_contents taken).2 with same | ⟨payloadBytes, at_pc, written⟩
    · exact absurd (congrFun same slot) changed
    · rw [written] at changed
      obtain rfl : slot = link.slot state.receiver.proxy.step := by
        by_contra other
        exact changed (Function.update_of_ne other _ _)
      exact inv.free (by rw [at_pc]; rfl)
  · rw [inv.sendFifo.head, inv.sendFifo.tail, link.step_le_step]
    exact inv.sendFifo.completed_le
  · refine ⟨?_, inv.recvFifo.bound⟩
    rw [inv.recvFifo.head, inv.recvFifo.tail, link.step_le_step]
    exact (Nat.le_add_right _ _).trans inv.recvFifo.released_le
  · refine ⟨?_, ?_⟩
    · intro failed
      have sender := inv.sender
      rwa [failed] at sender
    · intro failed
      have receiver := inv.receiver
      rwa [failed] at receiver

/-- A link with three slots for slices of two steps. -/
def unevenLink : Link where
  slotBytes := 8
  slotCount := 3
  stepIncrement := 2
  sendData := 1024
  recvData := 2048
  base := 0
  slotBytes_pos := by decide
  stepIncrement_pos := by decide
  stepIncrement_le := by decide
  fits := by decide
  sendData_ne := by decide
  recvData_ne := by decide

/-- A slice of two bytes and an empty one, cut into pieces that do not respect the frames. -/
def fragmentedRun : List Label :=
  [.fill [5, 6], .publish, .send, .send, .sendmsg 1, .sendmsg 4, .recv, .recvBytes 3, .recvBytes 1,
    .recv, .recvBytes 1, .sendmsg 1, .send, .send, .fill [], .publish, .send, .send, .sendmsg 4,
    .recvBytes 1, .recv, .recv, .recv, .read, .release, .recv, .recvBytes 4, .recv, .recv, .recv,
    .recv, .read]

theorem socket_delivery_fragmented :
    ∃ state, Reachable unevenLink state ∧ state.receiver.fifo.consumed = [[5, 6], []] ∧
      SafeDelivery unevenLink state := by
  have run : (StepSystem.exec (step unevenLink) (initial unevenLink) fragmentedRun).map
      (fun state => state.receiver.fifo.consumed) = some [[5, 6], []] := by
    decide +kernel
  obtain ⟨state, execution, consumed⟩ := Option.map_eq_some_iff.mp run
  have reach : Reachable unevenLink state := ⟨fragmentedRun, execution⟩
  exact ⟨state, reach, consumed, socket_delivery reach⟩

end NanoNccl.Socket
