import Mathlib.Algebra.Ring.Nat
import NanoNccl.Lib.ByteOrder
import NanoNccl.Lib.Execution
import NanoNccl.Lib.Memory

/-!
# The socket proxies

A socket edge copies slices from a send FIFO to a receive FIFO over one TCP connection. Each slice
travels as a frame: its size in network byte order, then its bytes. The send proxy hands the frame
to `sendmsg` as a gather list and repeats with what is left of the list; the receive proxy collects
the header, then the payload, from whatever `recv` returns. Both FIFOs wrap around after
`slot_count` steps, and a slice takes `step_increment` of them.
-/

namespace NanoNccl.Socket

open ByteOrder

/-- Geometry of the two FIFOs of an edge, as `validate_fifo` accepts it. -/
structure Link where
  /-- `slot_bytes`. -/
  slotBytes : ℕ
  /-- `slot_count`. -/
  slotCount : ℕ
  /-- `step_increment`. -/
  stepIncrement : ℕ
  /-- Address of the send FIFO. -/
  sendData : ℕ
  /-- Address of the receive FIFO. -/
  recvData : ℕ
  /-- Value of the four counters when the proxies are constructed. -/
  base : ℕ
  slotBytes_pos : 0 < slotBytes
  stepIncrement_pos : 0 < stepIncrement
  stepIncrement_le : stepIncrement ≤ slotCount
  fits : slotCount ≤ (2 ^ 64 - 1) / slotBytes
  sendData_ne : sendData ≠ 0
  recvData_ne : recvData ≠ 0

namespace Link

variable (link : Link)

/-- First step of the `k`-th slice. -/
def step (k : ℕ) : ℕ := link.base + link.stepIncrement * k

/-- Slot of a step. -/
def slot (step : ℕ) : ℕ := step % link.slotCount

/-- Address of a slot of the send FIFO. -/
def sendAddr (slot : ℕ) : ℕ := link.sendData + slot * link.slotBytes

/-- Address of a slot of the receive FIFO. -/
def recvAddr (slot : ℕ) : ℕ := link.recvData + slot * link.slotBytes

/-- A payload the producer may publish: its size is a 32-bit number within the slot. -/
def Publishable (payload : List UInt8) : Prop :=
  payload.length ≤ link.slotBytes ∧ payload.length < 2 ^ 32

instance (payload : List UInt8) : Decidable (link.Publishable payload) :=
  inferInstanceAs (Decidable (_ ∧ _))

@[simp] theorem step_zero : link.step 0 = link.base := by simp [step]

theorem step_succ (k : ℕ) : link.step k + link.stepIncrement = link.step (k + 1) := by
  simp [step, Nat.mul_add, Nat.add_assoc]

theorem step_strictMono : StrictMono link.step := by
  intro first second before
  exact Nat.add_lt_add_left (Nat.mul_lt_mul_of_pos_left before link.stepIncrement_pos) link.base

@[simp] theorem step_lt_step {first second : ℕ} :
    link.step first < link.step second ↔ first < second :=
  link.step_strictMono.lt_iff_lt

@[simp] theorem step_le_step {first second : ℕ} :
    link.step first ≤ link.step second ↔ first ≤ second :=
  link.step_strictMono.le_iff_le

@[simp] theorem step_inj {first second : ℕ} : link.step first = link.step second ↔ first = second :=
  link.step_strictMono.injective.eq_iff

/-- Slices that fit the FIFO together have different slots, also where the number of slots is not
a multiple of the increment. -/
theorem slot_ne (low : ℕ) {first second : ℕ} (distinct : first ≠ second) (first_low : low ≤ first)
    (first_high : link.step (first + 1) ≤ link.step low + link.slotCount)
    (second_low : low ≤ second)
    (second_high : link.step (second + 1) ≤ link.step low + link.slotCount) :
    link.slot (link.step first) ≠ link.slot (link.step second) := by
  have first_lt : link.step first < link.step (first + 1) :=
    link.step_strictMono (Nat.lt_succ_self _)
  have second_lt : link.step second < link.step (second + 1) :=
    link.step_strictMono (Nat.lt_succ_self _)
  apply Memory.mod_ne_of_window (link.step low)
  · simpa using distinct
  · simpa using first_low
  · exact first_lt.trans_le first_high
  · simpa using second_low
  · exact second_lt.trans_le second_high

end Link

/-! ### Frames and gather lists -/

/-- `SocketSliceHeader` as it lies in memory: the size in network byte order. -/
def sliceHeader (payloadBytes : ℕ) : List UInt8 := bigEndian 4 payloadBytes

/-- What a slice adds to the byte stream. -/
def frame (payload : List UInt8) : List UInt8 := sliceHeader payload.length ++ payload

/-- Buffers of `send_slice`. -/
inductive Buffer
  /-- The header on the stack. -/
  | header
  /-- The FIFO. -/
  | fifo
  deriving DecidableEq, Repr

/-- `iovec`. -/
structure Iovec where
  /-- Buffer of `iov_base`. -/
  buffer : Buffer
  /-- Position of `iov_base` in its buffer. -/
  base : ℕ
  /-- `iov_len`. -/
  len : ℕ
  deriving DecidableEq, Repr

/-- The gather list `send_iov_all` builds: buffers without bytes are left out. -/
def gatherList (first second : Iovec) : List Iovec :=
  [first, second].filter fun iov => iov.len ≠ 0

/-- The gather list of `send_slice`. -/
def sendSlice (addr payloadBytes : ℕ) : List Iovec :=
  gatherList ⟨.header, 0, 4⟩ ⟨.fifo, addr, payloadBytes⟩

/-- Contents of a buffer. -/
def Buffer.contents (header : List UInt8) (data : ℕ → UInt8) : Buffer → ℕ → UInt8
  | .header => fun i => header.getD i 0
  | .fifo => data

/-- The bytes a gather list stands for. -/
def gather (header : List UInt8) (data : ℕ → UInt8) (iovs : List Iovec) : List UInt8 :=
  iovs.flatMap fun iov => Memory.block (iov.buffer.contents header data) iov.base iov.len

/-- What `send_iov_all` leaves of a gather list after so many bytes were written. -/
def advanceIov : List Iovec → ℕ → List Iovec
  | [], _ => []
  | iov :: rest, consumed =>
      if iov.len ≤ consumed then advanceIov rest (consumed - iov.len)
      else { iov with base := iov.base + consumed, len := iov.len - consumed } :: rest

/-! ### The FIFOs -/

/-- The send FIFO and its producer. -/
structure SendFifo where
  /-- Memory, by address. -/
  data : ℕ → UInt8
  /-- `slot_sizes`. -/
  sizes : ℕ → ℕ
  /-- `send_head`. -/
  head : ℕ
  /-- `send_tail`. -/
  tail : ℕ
  /-- Slice written to its slot whose tail is not stored yet. -/
  staged : Option (List UInt8)
  /-- Slices published, oldest first. -/
  published : List (List UInt8)

namespace SendFifo

variable (link : Link) (fifo : SendFifo)

/-- A send FIFO before its first slice. -/
def fresh : SendFifo where
  data := fun _ => 0
  sizes := fun _ => 0
  head := link.base
  tail := link.base
  staged := none
  published := []

/-- The producer writes a slice and its size once `send_head` covers the slot. -/
def fill (payload : List UInt8) : Option SendFifo :=
  if fifo.staged = none ∧ link.Publishable payload ∧
      fifo.tail + link.stepIncrement ≤ fifo.head + link.slotCount then
    some { fifo with
      data := Memory.writeBlock fifo.data (link.sendAddr (link.slot fifo.tail)) payload
      sizes := Function.update fifo.sizes (link.slot fifo.tail) payload.length
      staged := some payload }
  else none

/-- The producer writes a slice and its size into the slot of `send_tail`, whether `send_head`
covers it or not. -/
def write (payload : List UInt8) : Option SendFifo :=
  if fifo.staged = none ∧ link.Publishable payload then
    some { fifo with
      data := Memory.writeBlock fifo.data (link.sendAddr (link.slot fifo.tail)) payload
      sizes := Function.update fifo.sizes (link.slot fifo.tail) payload.length
      staged := some payload }
  else none

/-- The producer stores `send_tail`. -/
def publish : Option SendFifo :=
  match fifo.staged with
  | none => none
  | some payload =>
      some { fifo with
        tail := fifo.tail + link.stepIncrement
        staged := none
        published := fifo.published ++ [payload] }

end SendFifo

/-- The receive FIFO and its consumer. -/
structure RecvFifo where
  /-- Memory, by address. -/
  data : ℕ → UInt8
  /-- `slot_sizes`. -/
  sizes : ℕ → ℕ
  /-- `recv_head`. -/
  head : ℕ
  /-- `recv_tail`. -/
  tail : ℕ
  /-- The consumer has read the slice at `recv_head` and not advanced it yet. -/
  reading : Bool
  /-- Slices read, oldest first. -/
  consumed : List (List UInt8)

namespace RecvFifo

variable (link : Link) (fifo : RecvFifo)

/-- A receive FIFO before its first slice. -/
def fresh : RecvFifo where
  data := fun _ => 0
  sizes := fun _ => 0
  head := link.base
  tail := link.base
  reading := false
  consumed := []

/-- The consumer reads the slice at `recv_head`: its size, and as many bytes of its slot. -/
def read : Option RecvFifo :=
  if fifo.reading = false ∧ fifo.head < fifo.tail then
    let slot := link.slot fifo.head
    some { fifo with
      reading := true
      consumed := fifo.consumed ++ [Memory.block fifo.data (link.recvAddr slot) (fifo.sizes slot)] }
  else none

/-- The consumer advances `recv_head` over the slice it has read. -/
def release : Option RecvFifo :=
  if fifo.reading = true then
    some { fifo with reading := false, head := fifo.head + link.stepIncrement }
  else none

end RecvFifo

/-! ### The proxies -/

/-- Where the send proxy stands in `run`. -/
inductive SendPc
  /-- Loads of `step_` and `send_tail`. -/
  | top
  /-- Load of the size and its test. -/
  | size
  /-- `sendmsg` in `send_iov_all`, with the gather list that is left. -/
  | send (payloadBytes : ℕ) (iovs : List Iovec)
  /-- Stores of `send_head` and `step_`. -/
  | storeHead
  /-- Stopped by "socket proxy send payload exceeds FIFO capacity". -/
  | payloadExceedsCapacity
  deriving DecidableEq, Repr

/-- Private state of the send proxy. -/
structure SendProxy where
  /-- `step_`. -/
  step : ℕ
  /-- Program counter. -/
  pc : SendPc
  deriving DecidableEq, Repr

/-- Where the receive proxy stands in `run`. -/
inductive RecvPc
  /-- Loads of `step_` and `recv_head`. -/
  | top
  /-- `recv_all` of the header, with the bytes received. -/
  | header (received : List UInt8)
  /-- `recv_all` of the payload, with the position of `cursor`. -/
  | payload (payloadBytes cursor : ℕ)
  /-- Store of the size. -/
  | storeSize (payloadBytes : ℕ)
  /-- Stores of `recv_tail` and `step_`. -/
  | storeTail
  /-- Stopped by "socket slice payload exceeds capacity". -/
  | payloadExceedsCapacity
  deriving DecidableEq, Repr

/-- Private state of the receive proxy. -/
structure RecvProxy where
  /-- `step_`. -/
  step : ℕ
  /-- Program counter. -/
  pc : RecvPc
  deriving DecidableEq, Repr

/-- The sending end of the edge. -/
structure SendSide where
  /-- Send FIFO and producer. -/
  fifo : SendFifo
  /-- Send proxy. -/
  proxy : SendProxy

/-- The receiving end of the edge. -/
structure RecvSide where
  /-- Receive FIFO and consumer. -/
  fifo : RecvFifo
  /-- Receive proxy. -/
  proxy : RecvProxy

/-- Move the send proxy to another program point. -/
def SendSide.goto (side : SendSide) (pc : SendPc) : SendSide :=
  { side with proxy := { side.proxy with pc := pc } }

/-- Move the receive proxy to another program point. -/
def RecvSide.goto (side : RecvSide) (pc : RecvPc) : RecvSide :=
  { side with proxy := { side.proxy with pc := pc } }

/-- One step of `SocketSendProxy::run` other than a `sendmsg`. -/
def sendStep (link : Link) (side : SendSide) : Option SendSide :=
  let slot := link.slot side.proxy.step
  match side.proxy.pc with
  | .top => if side.fifo.tail ≤ side.proxy.step then some side else some (side.goto .size)
  | .size =>
      let payloadBytes := side.fifo.sizes slot
      if link.slotBytes < payloadBytes then some (side.goto .payloadExceedsCapacity)
      else some (side.goto (.send payloadBytes (sendSlice (link.sendAddr slot) payloadBytes)))
  | .send _ [] => some (side.goto .storeHead)
  | .storeHead =>
      some
        { fifo := { side.fifo with head := side.proxy.step + link.stepIncrement }
          proxy := { step := side.proxy.step + link.stepIncrement, pc := .top } }
  | .send _ (_ :: _) | .payloadExceedsCapacity => none

/-- `sendmsg` takes `count` bytes of the gather list. -/
def sendmsg (side : SendSide) (count : ℕ) : Option (SendSide × List UInt8) :=
  match side.proxy.pc with
  | .send payloadBytes iovs =>
      let bytes := gather (sliceHeader payloadBytes) side.fifo.data iovs
      if 0 < count ∧ count ≤ bytes.length then
        some (side.goto (.send payloadBytes (advanceIov iovs count)), bytes.take count)
      else none
  | .top | .size | .storeHead | .payloadExceedsCapacity => none

/-- One step of `SocketRecvProxy::run` other than a `recv`. -/
def recvStep (link : Link) (side : RecvSide) : Option RecvSide :=
  let slot := link.slot side.proxy.step
  match side.proxy.pc with
  | .top =>
      if side.fifo.head + link.slotCount < side.proxy.step + link.stepIncrement then some side
      else some (side.goto (.header []))
  | .header received =>
      if received.length < 4 then none
      else if link.slotBytes < ofBigEndian received then some (side.goto .payloadExceedsCapacity)
      else some (side.goto (.payload (ofBigEndian received) 0))
  | .payload payloadBytes cursor =>
      if cursor < payloadBytes then none else some (side.goto (.storeSize payloadBytes))
  | .storeSize payloadBytes =>
      some { side.goto .storeTail with
        fifo := { side.fifo with sizes := Function.update side.fifo.sizes slot payloadBytes } }
  | .storeTail =>
      some
        { fifo := { side.fifo with tail := side.proxy.step + link.stepIncrement }
          proxy := { step := side.proxy.step + link.stepIncrement, pc := .top } }
  | .payloadExceedsCapacity => none

/-- `recv` returns these bytes, at least one and no more than it was asked for. -/
def recvBytes (link : Link) (side : RecvSide) (bytes : List UInt8) : Option RecvSide :=
  match side.proxy.pc with
  | .header received =>
      if 0 < bytes.length ∧ received.length + bytes.length ≤ 4 then
        some (side.goto (.header (received ++ bytes)))
      else none
  | .payload payloadBytes cursor =>
      if 0 < bytes.length ∧ cursor + bytes.length ≤ payloadBytes then
        some { side.goto (.payload payloadBytes (cursor + bytes.length)) with
          fifo := { side.fifo with
            data := Memory.writeBlock side.fifo.data
              (link.recvAddr (link.slot side.proxy.step) + cursor) bytes } }
      else none
  | .top | .storeSize _ | .storeTail | .payloadExceedsCapacity => none

/-! ### The edge -/

/-- State of the edge: both ends, and the bytes of the stream on their way. -/
structure State where
  /-- Sending end. -/
  sender : SendSide
  /-- Receiving end. -/
  receiver : RecvSide
  /-- Bytes written and not read, oldest first. -/
  wire : List UInt8

/-- Both proxies are constructed on fresh FIFOs and a new connection. -/
def initial (link : Link) : State where
  sender := ⟨SendFifo.fresh link, ⟨link.base, .top⟩⟩
  receiver := ⟨RecvFifo.fresh link, ⟨link.base, .top⟩⟩
  wire := []

/-- One move of a party of the edge. -/
inductive Label
  /-- The producer writes a slice. -/
  | fill (payload : List UInt8)
  /-- The producer stores `send_tail`. -/
  | publish
  /-- The send proxy moves. -/
  | send
  /-- The send proxy writes so many bytes to the stream. -/
  | sendmsg (count : ℕ)
  /-- The receive proxy moves. -/
  | recv
  /-- The receive proxy reads so many bytes from the stream. -/
  | recvBytes (count : ℕ)
  /-- The consumer reads a slice. -/
  | read
  /-- The consumer advances `recv_head`. -/
  | release
  deriving DecidableEq, Repr

/-- The transition function of the edge. -/
def step (link : Link) (state : State) : Label → Option State
  | .fill payload =>
      (state.sender.fifo.fill link payload).map fun fifo =>
        { state with sender := { state.sender with fifo := fifo } }
  | .publish =>
      (state.sender.fifo.publish link).map fun fifo =>
        { state with sender := { state.sender with fifo := fifo } }
  | .send => (sendStep link state.sender).map fun sender => { state with sender := sender }
  | .sendmsg count =>
      (sendmsg state.sender count).map fun result =>
        { state with sender := result.1, wire := state.wire ++ result.2 }
  | .recv => (recvStep link state.receiver).map fun receiver => { state with receiver := receiver }
  | .recvBytes count =>
      if count ≤ state.wire.length then
        (recvBytes link state.receiver (state.wire.take count)).map fun receiver =>
          { state with receiver := receiver, wire := state.wire.drop count }
      else none
  | .read =>
      (state.receiver.fifo.read link).map fun fifo =>
        { state with receiver := { state.receiver with fifo := fifo } }
  | .release =>
      (state.receiver.fifo.release link).map fun fifo =>
        { state with receiver := { state.receiver with fifo := fifo } }

/-- The states the edge can reach. -/
def Reachable (link : Link) (state : State) : Prop :=
  StepSystem.Reachable (step link) (initial link) state

end NanoNccl.Socket
