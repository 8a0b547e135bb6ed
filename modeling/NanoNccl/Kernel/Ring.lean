import Mathlib.Logic.Function.Basic
import NanoNccl.Kernel.Schedule
import NanoNccl.Lib.Execution
import NanoNccl.Lib.Memory

/-!
# The ring of kernels over direct edges

Ranks run a common list of launches back to back. A launch runs one block per channel; a block
executes its slice operations in order. Inside one slice operation the step relation keeps every
order the block barriers leave open: the two waits poll independently, a large slice publishes
`recv_head` and `send_tail` in either order, and a small reducing slice releases its receive slot
before or after the local reduction. Head and tail of an edge are shared by its two kernels.
The abort flag is never raised here, so no wait gives up.
-/

namespace NanoNccl

/-- The three collectives. -/
inductive Collective
  | allReduce
  | allGather
  | reduceScatter
  deriving DecidableEq, Repr

/-- One collective call, made with the same arguments on every rank. -/
structure Launch (α : Type*) where
  /-- Which kernel is launched. -/
  kind : Collective
  /-- Element type. -/
  dtype : DType
  /-- Reduction operation. -/
  redop : RedOp
  /-- Element count passed to the kernel. -/
  count : ℕ
  /-- Input buffer of each rank. -/
  input : ℕ → ℕ → α

/-- Launch arguments of one rank: with a distributed topology the slots are one step apart. -/
def Launch.fifoArgs {α : Type*} (launch : Launch α) (rank : ℕ) : FifoArgs where
  rank := rank
  count := launch.count
  slotElems := stepElems kFifoBytes launch.dtype
  stepElems := stepElems kFifoBytes launch.dtype

/-- A ring of `kRanks` ranks, its launches and its uninterpreted reduction arithmetic. -/
structure KernelRing (α : Type*) where
  /-- Number of ranks. -/
  kRanks : ℕ
  /-- Number of channels, one kernel block each. -/
  kChannels : ℕ
  /-- Launches every rank performs, in order. -/
  launches : List (Launch α)
  /-- `RedOpTraits<op>::apply`. -/
  apply : RedOp → α → α → α
  /-- `scale_avg` by the inverse rank count. -/
  scaleAvg : α → α

/-- A kernel block: rank and channel. It also names the edge the block sends on. -/
abbrev BlockId := ℕ × ℕ

/-- Progress inside the current slice operation. -/
structure SliceState where
  /-- `recv_tail` covers the slice. -/
  waitedRecv : Bool := false
  /-- `send_head` covers the slice. -/
  waitedSend : Bool := false
  /-- The pass over the received data is done. -/
  moved : Bool := false
  /-- The local reduction of a small slice is done. -/
  reduced : Bool := false
  /-- `recv_head` is published. -/
  postedHead : Bool := false
  /-- `send_tail` is published. -/
  postedTail : Bool := false
  deriving DecidableEq, Repr

/-- One kernel block and the base steps it keeps between launches. -/
structure Block where
  /-- The block runs a kernel that has not returned. -/
  live : Bool := false
  /-- Index of the launch the block last ran. -/
  launch : ℕ := 0
  /-- Slice operations left, the current one first. -/
  ops : List SliceOp := []
  /-- Progress of the current slice operation. -/
  slice : SliceState := {}
  /-- `send_step`. -/
  sendStep : ℕ := 0
  /-- `recv_step`. -/
  recvStep : ℕ := 0
  /-- `send_head_cache`. -/
  sendHeadCache : ℕ := 0
  /-- `recv_tail_cache`. -/
  recvTailCache : ℕ := 0
  /-- `send_base_steps[channel]`. -/
  sendBase : ℕ := 0
  /-- `recv_base_steps[channel]`. -/
  recvBase : ℕ := 0

/-- Device memory, with the history of the accesses to user buffers. Buffers are named by rank
and launch. -/
structure Store (α : Type*) where
  /-- FIFO of each edge. -/
  fifo : BlockId → ℕ → α
  /-- Output buffers. -/
  output : ℕ × ℕ → ℕ → α
  /-- Values written to each output element, oldest first. -/
  writes : ℕ × ℕ → ℕ → List α
  /-- Input ranges read, as offset and length. -/
  loads : ℕ × ℕ → List (ℕ × ℕ)

/-- State of the whole net. -/
structure RingState (α : Type*) where
  /-- Launches started by each rank. -/
  started : ℕ → ℕ
  /-- The kernel blocks. -/
  block : BlockId → Block
  /-- Head counter of each edge, published by its consumer. -/
  head : BlockId → ℕ
  /-- Tail counter of each edge, published by its producer. -/
  tail : BlockId → ℕ
  /-- Memory. -/
  store : Store α
  /-- Slices published on each edge, as step and payload bytes. -/
  posted : BlockId → List (ℕ × ℕ)
  /-- Slices each block consumed, as step and payload bytes. -/
  consumed : BlockId → List (ℕ × ℕ)

namespace Store

variable {α : Type*}

/-- Write a slice into a FIFO. -/
def storeFifo (store : Store α) (edge : BlockId) (off len : ℕ) (value : ℕ → α) : Store α :=
  { store with
    fifo := Function.update store.fifo edge (Memory.overwrite (store.fifo edge) off len value) }

/-- Write a slice into an output buffer. -/
def storeOutput (store : Store α) (buffer : ℕ × ℕ) (off len : ℕ) (value : ℕ → α) : Store α :=
  { store with
    output := Function.update store.output buffer
      (Memory.overwrite (store.output buffer) off len value)
    writes := Function.update store.writes buffer fun j =>
      if off ≤ j ∧ j < off + len then store.writes buffer j ++ [value (j - off)]
      else store.writes buffer j }

/-- Read a slice of an input buffer. -/
def loadInput (store : Store α) (buffer : ℕ × ℕ) (off len : ℕ) : Store α :=
  { store with
    loads := Function.update store.loads buffer (store.loads buffer ++ [(off, len)]) }

end Store

namespace KernelRing

variable {α : Type*} (net : KernelRing α)

/-- Block that sends on the edge `id` receives from. -/
def pred (id : BlockId) : BlockId := ((id.1 + net.kRanks - 1) % net.kRanks, id.2)

/-- Block that receives on the edge `id` sends on. -/
def succ (id : BlockId) : BlockId := ((id.1 + 1) % net.kRanks, id.2)

/-- The kernel of a launch as run by one block. -/
def kernel (launch : Launch α) (id : BlockId) : Option (List SliceOp) :=
  let args := launch.fifoArgs id.1
  match launch.kind with
  | .allReduce => ringSimpleKernel net.kRanks net.kChannels launch.dtype args id.2
  | .allGather => ringSimpleAllGatherKernel net.kRanks net.kChannels launch.dtype args id.2
  | .reduceScatter =>
      ringSimpleReduceScatterKernel net.kRanks net.kChannels launch.dtype args id.2

/-- Slice operations of a launch on one block. -/
def ops (launch : Launch α) (id : BlockId) : List SliceOp :=
  (net.kernel launch id).getD []

/-- The share of the block is empty, and its kernel returns before it touches the counters. -/
def emptyShare (launch : Launch α) (channel : ℕ) : Bool :=
  match launch.kind with
  | .allReduce =>
      let part := cbdPart net.kRanks net.kChannels launch.dtype launch.count channel
      part.partCount = 0 ∨ part.chunkCount = 0
  | .allGather | .reduceScatter =>
      (channelPart net.kChannels launch.count channel).partCount = 0

/-- `scale_avg` on the last hop, for `Avg` only. -/
def finish (redop : RedOp) (value : α) : α :=
  if redop = .avg then net.scaleAvg value else value

/-- The slice takes the early-credit path. -/
def early (launch : Launch α) (op : SliceOp) : Bool :=
  op.work * launch.dtype.size ≤ kEarlyRecvCreditMaxBytes

/-- The slice is reduced in a second pass over data already copied out of the receive slot. -/
def twoPass (launch : Launch α) (op : SliceOp) : Bool :=
  op.prim.reduces && early launch op

/-- First element of the FIFO slot of a step. -/
def slotOffset (launch : Launch α) (step : ℕ) : ℕ :=
  step % kFifoSteps * stepElems kFifoBytes launch.dtype

/-- Value of the reduction of one received element with local input. -/
def reduced (launch : Launch α) (rank : ℕ) (op : SliceOp) (recv : ℕ → α) (i : ℕ) : α :=
  net.apply launch.redop (launch.input rank (op.src + i)) (recv i)

/-- The pass that empties the receive slot: `copy_worker`, `copy_volatile_worker`,
`reduce_volatile_worker` and their broadcasting forms. -/
def moveSlice (launch : Launch α) (id : BlockId) (block : Block) (op : SliceOp)
    (store : Store α) : Store α :=
  let buffer := (id.1, block.launch)
  let sendOff := slotOffset launch block.sendStep
  let recv := fun i => store.fifo (net.pred id) (slotOffset launch block.recvStep + i)
  let source := fun i => launch.input id.1 (op.src + i)
  let value := net.reduced launch id.1 op recv
  let final := fun i => net.finish launch.redop (value i)
  match op.prim, early launch op with
  | .directSend, _ =>
      (store.loadInput buffer op.src op.work).storeFifo id sendOff op.work source
  | .recvReduceSend, true => store.storeFifo id sendOff op.work recv
  | .recvReduceSend, false =>
      (store.loadInput buffer op.src op.work).storeFifo id sendOff op.work value
  | .recvReduceCopySend, true => store.storeFifo id sendOff op.work recv
  | .recvReduceCopySend, false =>
      ((store.loadInput buffer op.src op.work).storeOutput buffer op.dst op.work final).storeFifo
        id sendOff op.work final
  | .recvReduceCopy, true => store.storeOutput buffer op.dst op.work recv
  | .recvReduceCopy, false =>
      (store.loadInput buffer op.src op.work).storeOutput buffer op.dst op.work final
  | .recvCopySend, _ =>
      (store.storeOutput buffer op.dst op.work recv).storeFifo id sendOff op.work recv
  | .directRecv, _ => store.storeOutput buffer op.dst op.work recv
  | .copyWorker, _ =>
      (store.loadInput buffer op.src op.work).storeOutput buffer op.dst op.work source

/-- The second pass of a small slice: `reduce_local_into_dst` and
`reduce_local_broadcast_worker`, over the data the first pass copied. -/
def reduceSlice (launch : Launch α) (id : BlockId) (block : Block) (op : SliceOp)
    (store : Store α) : Store α :=
  let buffer := (id.1, block.launch)
  let sendOff := slotOffset launch block.sendStep
  let loaded := store.loadInput buffer op.src op.work
  match op.prim with
  | .recvReduceSend =>
      loaded.storeFifo id sendOff op.work
        (net.reduced launch id.1 op fun i => store.fifo id (sendOff + i))
  | .recvReduceCopySend =>
      let final := fun i => net.finish launch.redop
        (net.reduced launch id.1 op (fun i => store.fifo id (sendOff + i)) i)
      (loaded.storeOutput buffer op.dst op.work final).storeFifo id sendOff op.work final
  | .recvReduceCopy =>
      loaded.storeOutput buffer op.dst op.work fun i => net.finish launch.redop
        (net.reduced launch id.1 op (fun i => store.output buffer (op.dst + i)) i)
  | _ => store

end KernelRing

/-- Actions of a block. -/
inductive Action
  | pollTail
  | pollHead
  | waitRecv
  | waitSend
  | move
  | reduce
  | postHead
  | postTail
  | next
  | ret
  deriving DecidableEq, Repr

/-- Steps of the ring: a rank starts its next launch, or a block acts. -/
inductive RingLabel
  | launch (rank : ℕ)
  | block (id : BlockId) (action : Action)
  deriving DecidableEq, Repr

namespace KernelRing

variable {α : Type*} (net : KernelRing α)

/-- When an action of the current slice operation may happen. -/
def guard (launch : Launch α) (block : Block) (op : SliceOp) : Action → Bool
  | .pollTail =>
      op.prim.recvs && !block.slice.waitedRecv &&
        block.recvTailCache < block.recvStep + kSliceSteps
  | .pollHead =>
      op.prim.sends && !block.slice.waitedSend &&
        block.sendHeadCache + kFifoSteps < block.sendStep + kSliceSteps
  | .waitRecv =>
      op.prim.recvs && !block.slice.waitedRecv &&
        !(block.recvTailCache < block.recvStep + kSliceSteps : Bool)
  | .waitSend =>
      op.prim.sends && !block.slice.waitedSend &&
        !(block.sendHeadCache + kFifoSteps < block.sendStep + kSliceSteps : Bool)
  | .move =>
      (!op.prim.recvs || block.slice.waitedRecv) && (!op.prim.sends || block.slice.waitedSend) &&
        !block.slice.moved
  | .reduce => twoPass launch op && block.slice.moved && !block.slice.reduced
  | .postHead => op.prim.recvs && block.slice.moved && !block.slice.postedHead
  | .postTail =>
      op.prim.sends && block.slice.moved && !block.slice.postedTail &&
        (!twoPass launch op || block.slice.reduced) &&
        (!(early launch op && op.prim.recvs) || block.slice.postedHead)
  | .next =>
      block.slice.moved && (!twoPass launch op || block.slice.reduced) &&
        (!op.prim.recvs || block.slice.postedHead) && (!op.prim.sends || block.slice.postedTail)
  | .ret => false

/-- The local part of an action of the current slice operation. -/
def act (state : RingState α) (id : BlockId) (block : Block) (op : SliceOp)
    (rest : List SliceOp) : Action → Block
  | .pollTail => { block with recvTailCache := state.tail (net.pred id) }
  | .pollHead => { block with sendHeadCache := state.head id }
  | .waitRecv => { block with slice := { block.slice with waitedRecv := true } }
  | .waitSend => { block with slice := { block.slice with waitedSend := true } }
  | .move => { block with slice := { block.slice with moved := true } }
  | .reduce => { block with slice := { block.slice with reduced := true } }
  | .postHead => { block with slice := { block.slice with postedHead := true } }
  | .postTail => { block with slice := { block.slice with postedTail := true } }
  | .next =>
      { block with
        ops := rest
        slice := {}
        recvStep := if op.prim.recvs then block.recvStep + kSliceSteps else block.recvStep
        sendStep := if op.prim.sends then block.sendStep + kSliceSteps else block.sendStep }
  | .ret => block

/-- Execute an enabled action of the current slice operation. -/
def perform (launch : Launch α) (state : RingState α) (id : BlockId) (block : Block)
    (op : SliceOp) (rest : List SliceOp) (action : Action) : RingState α :=
  let state' := { state with
    block := Function.update state.block id (net.act state id block op rest action) }
  match action with
  | .move => { state' with store := net.moveSlice launch id block op state.store }
  | .reduce => { state' with store := net.reduceSlice launch id block op state.store }
  | .postHead =>
      { state' with
        head := Function.update state.head (net.pred id) (block.recvStep + kSliceSteps)
        consumed := Function.update state.consumed id
          (state.consumed id ++ [(block.recvStep, op.work * launch.dtype.size)]) }
  | .postTail =>
      { state' with
        tail := Function.update state.tail id (block.sendStep + kSliceSteps)
        posted := Function.update state.posted id
          (state.posted id ++ [(block.sendStep, op.work * launch.dtype.size)]) }
  | _ => state'

/-- The kernel returns: thread 0 stores the base steps. -/
def retire (block : Block) : Block :=
  { block with live := false, sendBase := block.sendStep, recvBase := block.recvStep }

/-- A block enters a kernel: it loads the base steps and seeds both caches with them. -/
def enter (launch : Launch α) (index : ℕ) (id : BlockId) (block : Block) : Block :=
  if net.emptyShare launch id.2 then { block with launch := index }
  else
    { block with
      live := true
      launch := index
      ops := net.ops launch id
      slice := {}
      sendStep := block.sendBase
      recvStep := block.recvBase
      sendHeadCache := block.sendBase
      recvTailCache := block.recvBase }

/-- Every block of the rank has returned. -/
def idle (state : RingState α) (rank : ℕ) : Prop :=
  ∀ channel < net.kChannels, (state.block (rank, channel)).live = false

instance (state : RingState α) (rank : ℕ) : Decidable (net.idle state rank) :=
  inferInstanceAs (Decidable (∀ channel < net.kChannels, _))

/-- Drained edges: head, tail and both base steps of an edge agree, and nothing has run. -/
def initial (base : BlockId → ℕ) (fifo : BlockId → ℕ → α) (output : ℕ × ℕ → ℕ → α) :
    RingState α where
  started := fun _ => 0
  block := fun id =>
    { sendStep := base id
      recvStep := base (net.pred id)
      sendBase := base id
      recvBase := base (net.pred id) }
  head := base
  tail := base
  store := { fifo, output, writes := fun _ _ => [], loads := fun _ => [] }
  posted := fun _ => []
  consumed := fun _ => []

/-- One step of the ring. -/
def step (state : RingState α) : RingLabel → Option (RingState α)
  | .launch rank =>
      match net.launches[state.started rank]? with
      | none => none
      | some launch =>
          if rank < net.kRanks ∧ net.idle state rank then
            some
              { state with
                started := Function.update state.started rank (state.started rank + 1)
                block := fun id =>
                  if id.1 = rank ∧ id.2 < net.kChannels then
                    net.enter launch (state.started rank) id (state.block id)
                  else state.block id }
          else none
  | .block id action =>
      let block := state.block id
      if id.1 < net.kRanks ∧ id.2 < net.kChannels ∧ block.live then
        match net.launches[block.launch]?, block.ops with
        | none, _ => none
        | some _, [] =>
            if action = .ret then
              some { state with block := Function.update state.block id (retire block) }
            else none
        | some launch, op :: rest =>
            if guard launch block op action then
              some (net.perform launch state id block op rest action)
            else none
      else none

end KernelRing

end NanoNccl
