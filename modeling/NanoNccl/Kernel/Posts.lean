import NanoNccl.Kernel.Plan
import NanoNccl.Kernel.Slots
import NanoNccl.Rdma.SendRecvDelivery
import NanoNccl.Rdma.WriteCtsInvariant
import NanoNccl.Socket.Delivery

/-!
# Every slice a kernel posts fits its slot

Three roundings meet in a chunk: channel shares are cut into chunks of whole grains, the last
all-reduce chunk is aligned again, and a slice is the larger of two estimates. The chunk of a
primitive call still never outgrows a slot, so its slices are never empty, lie inside the slot and
announce a size that the host proxies take without an exception or a special case.
-/

namespace NanoNccl

open Tiling

/-! ### Primitive calls -/

/-- One call of a primitive by a kernel. -/
structure PrimCall where
  /-- The primitive. -/
  prim : Prim
  /-- First input element of the chunk. -/
  src : ℕ
  /-- First output element of the chunk. -/
  dst : ℕ
  /-- Elements of the chunk. -/
  nelem : ℕ
  deriving DecidableEq, Repr

/-- Slices of a call. -/
def PrimCall.slices (dtype : DType) (args : FifoArgs) (call : PrimCall) : List (ℕ × ℕ) :=
  NanoNccl.slices dtype args.stepElems call.nelem

/-- Slice operations of a call. -/
def PrimCall.ops (dtype : DType) (args : FifoArgs) (call : PrimCall) : List SliceOp :=
  sliced dtype args call.prim call.src call.dst call.nelem

section Calls

variable (nranks : ℕ) (dtype : DType) (args : FifoArgs)

/-- Primitive calls of `ring_simple_kernel` in the pass at `elem_offset`. -/
def ringSimpleCalls (part : CbdPart) (elemOffset : ℕ) : List PrimCall :=
  let remCount := part.partCount - elemOffset
  let loopChunk := loopChunk nranks dtype args part remCount
  let offset := fun chunk => part.partOffset + elemOffset + chunk * loopChunk
  let work := fun chunk => nelem loopChunk remCount (chunk * loopChunk)
  let ringIx := args.rank
  let before := fun j => (ringIx + nranks - j) % nranks
  ⟨.directSend, offset (before 1), 0, work (before 1)⟩ ::
    (List.range' 2 (nranks - 2)).map (fun j =>
      ⟨.recvReduceSend, offset (before j), 0, work (before j)⟩) ++
    ⟨.recvReduceCopySend, offset ringIx, offset ringIx, work ringIx⟩ ::
    (List.range' 1 (nranks - 2)).map (fun j =>
      ⟨.recvCopySend, 0, offset (before j), work (before j)⟩) ++
    [⟨.directRecv, 0, offset ((ringIx + 1) % nranks), work ((ringIx + 1) % nranks)⟩]

/-- Primitive calls of `ring_simple_all_gather_kernel` in the pass at `elem_offset`. -/
def ringSimpleAllGatherCalls (part : ChannelPart) (elemOffset : ℕ) : List PrimCall :=
  let work := passWork args part elemOffset
  let inputOffset := part.partOffset + elemOffset
  let output := fun sourceRank => sourceRank * args.count + inputOffset
  ⟨.directSend, inputOffset, 0, work⟩ ::
    (List.range' 1 (nranks - 2)).map (fun step =>
      ⟨.recvCopySend, 0, output ((args.rank + nranks - step) % nranks), work⟩) ++
    [⟨.directRecv, 0, output ((args.rank + 1) % nranks), work⟩]

/-- Primitive calls of `ring_simple_reduce_scatter_kernel` in the pass at `elem_offset`. -/
def ringSimpleReduceScatterCalls (part : ChannelPart) (elemOffset : ℕ) : List PrimCall :=
  let work := passWork args part elemOffset
  let rankPartOffset := part.partOffset + elemOffset
  let input := fun chunk => chunk * args.count + rankPartOffset
  ⟨.directSend, input ((args.rank + nranks - 1) % nranks), 0, work⟩ ::
    (List.range' 2 (nranks - 2)).map (fun step =>
      ⟨.recvReduceSend, input ((args.rank + nranks - step) % nranks), 0, work⟩) ++
    [⟨.recvReduceCopy, input args.rank, rankPartOffset, work⟩]

theorem ringSimplePass_eq_calls (part : CbdPart) (elemOffset : ℕ) :
    ringSimplePass nranks dtype args part elemOffset =
      (ringSimpleCalls nranks dtype args part elemOffset).flatMap (PrimCall.ops dtype args) := by
  simp [ringSimplePass, ringSimpleCalls, PrimCall.ops, directSend, recvReduceSend,
    recvReduceCopySend, recvCopySend, directRecv, List.flatMap_map]

theorem ringSimpleAllGatherPass_eq_calls (part : ChannelPart) (elemOffset : ℕ) :
    ringSimpleAllGatherPass nranks dtype args part elemOffset =
      copyWorker (part.partOffset + elemOffset)
          (args.rank * args.count + (part.partOffset + elemOffset))
          (passWork args part elemOffset) ++
        (ringSimpleAllGatherCalls nranks args part elemOffset).flatMap
          (PrimCall.ops dtype args) := by
  simp [ringSimpleAllGatherPass, ringSimpleAllGatherCalls, PrimCall.ops, directSend, recvCopySend,
    directRecv, List.flatMap_map]

theorem ringSimpleReduceScatterPass_eq_calls (part : ChannelPart) (elemOffset : ℕ) :
    ringSimpleReduceScatterPass nranks dtype args part elemOffset =
      (ringSimpleReduceScatterCalls nranks args part elemOffset).flatMap
        (PrimCall.ops dtype args) := by
  simp [ringSimpleReduceScatterPass, ringSimpleReduceScatterCalls, PrimCall.ops, directSend,
    recvReduceSend, recvReduceCopy, List.flatMap_map]

end Calls

/-- A call one of the three kernels makes in a pass, in a build with FIFOs of `fifoBytes` bytes. A
pass is any position inside the share; the loop need not be followed to it. -/
inductive KernelCall (fifoBytes : ℕ) (dtype : DType) : PrimCall → Prop
  | allReduce {nranks kChannels rank count channel elemOffset : ℕ} {call : PrimCall}
      (ranks : 2 ≤ nranks) (channels : 1 ≤ kChannels) (nonempty : 1 ≤ count)
      (products : count * kChannels < 2 ^ 64)
      (inside : elemOffset < (cbdPart nranks kChannels dtype count channel).partCount)
      (made : call ∈ ringSimpleCalls nranks dtype (buildArgs fifoBytes dtype rank count)
        (cbdPart nranks kChannels dtype count channel) elemOffset) :
      KernelCall fifoBytes dtype call
  | allGather {nranks kChannels rank count channel elemOffset : ℕ} {call : PrimCall}
      (ranks : 2 ≤ nranks) (channels : 1 ≤ kChannels) (nonempty : 1 ≤ count)
      (products : count * kChannels < 2 ^ 64)
      (inside : elemOffset < (channelPart kChannels count channel).partCount)
      (made : call ∈ ringSimpleAllGatherCalls nranks (buildArgs fifoBytes dtype rank count)
        (channelPart kChannels count channel) elemOffset) :
      KernelCall fifoBytes dtype call
  | reduceScatter {nranks kChannels rank count channel elemOffset : ℕ} {call : PrimCall}
      (ranks : 2 ≤ nranks) (channels : 1 ≤ kChannels) (nonempty : 1 ≤ count)
      (products : count * kChannels < 2 ^ 64)
      (inside : elemOffset < (channelPart kChannels count channel).partCount)
      (made : call ∈ ringSimpleReduceScatterCalls nranks (buildArgs fifoBytes dtype rank count)
        (channelPart kChannels count channel) elemOffset) :
      KernelCall fifoBytes dtype call

section Kernels

variable {nranks kChannels rank count channel fifoBytes : ℕ} {dtype : DType} {ops : List SliceOp}
  {op : SliceOp}

/-- Every slice operation of `ring_simple_kernel` belongs to a primitive call. -/
theorem exists_call_of_mem_ringSimpleKernel (ranks : 2 ≤ nranks) (channels : 1 ≤ kChannels)
    (nonempty : 1 ≤ count) (products : count * kChannels < 2 ^ 64)
    (runs : ringSimpleKernel nranks kChannels dtype (buildArgs fifoBytes dtype rank count) channel =
      some ops) (member : op ∈ ops) :
    ∃ call, KernelCall fifoBytes dtype call ∧
      op ∈ call.ops dtype (buildArgs fifoBytes dtype rank count) := by
  unfold ringSimpleKernel at runs
  dsimp only at runs
  split at runs
  · obtain rfl := Option.some.inj runs
    cases member
  · obtain ⟨offsets, loops, rfl⟩ := Option.map_eq_some_iff.mp runs
    obtain ⟨elemOffset, passed, member⟩ := List.mem_flatMap.mp member
    rw [ringSimplePass_eq_calls] at member
    obtain ⟨call, made, member⟩ := List.mem_flatMap.mp member
    exact ⟨call, .allReduce ranks channels nonempty products (mem_elemOffsets_lt loops passed) made,
      member⟩

/-- Every slice operation of `ring_simple_all_gather_kernel` but the plain copies belongs to a
primitive call. -/
theorem exists_call_of_mem_ringSimpleAllGatherKernel (ranks : 2 ≤ nranks) (channels : 1 ≤ kChannels)
    (nonempty : 1 ≤ count) (products : count * kChannels < 2 ^ 64)
    (runs : ringSimpleAllGatherKernel nranks kChannels dtype (buildArgs fifoBytes dtype rank count)
      channel = some ops) (member : op ∈ ops) (primitive : op.prim ≠ .copyWorker) :
    ∃ call, KernelCall fifoBytes dtype call ∧
      op ∈ call.ops dtype (buildArgs fifoBytes dtype rank count) := by
  unfold ringSimpleAllGatherKernel at runs
  dsimp only at runs
  split at runs
  · obtain rfl := Option.some.inj runs
    cases member
  · obtain ⟨offsets, loops, rfl⟩ := Option.map_eq_some_iff.mp runs
    obtain ⟨elemOffset, passed, member⟩ := List.mem_flatMap.mp member
    rw [ringSimpleAllGatherPass_eq_calls] at member
    rcases List.mem_append.mp member with copied | member
    · exact absurd (congrArg SliceOp.prim (List.mem_singleton.mp copied)) primitive
    · obtain ⟨call, made, member⟩ := List.mem_flatMap.mp member
      exact ⟨call, .allGather ranks channels nonempty products (mem_elemOffsets_lt loops passed)
        made, member⟩

/-- Every slice operation of `ring_simple_reduce_scatter_kernel` belongs to a primitive call. -/
theorem exists_call_of_mem_ringSimpleReduceScatterKernel (ranks : 2 ≤ nranks)
    (channels : 1 ≤ kChannels) (nonempty : 1 ≤ count) (products : count * kChannels < 2 ^ 64)
    (runs : ringSimpleReduceScatterKernel nranks kChannels dtype
      (buildArgs fifoBytes dtype rank count) channel = some ops) (member : op ∈ ops) :
    ∃ call, KernelCall fifoBytes dtype call ∧
      op ∈ call.ops dtype (buildArgs fifoBytes dtype rank count) := by
  unfold ringSimpleReduceScatterKernel at runs
  dsimp only at runs
  split at runs
  · obtain rfl := Option.some.inj runs
    cases member
  · obtain ⟨offsets, loops, rfl⟩ := Option.map_eq_some_iff.mp runs
    obtain ⟨elemOffset, passed, member⟩ := List.mem_flatMap.mp member
    rw [ringSimpleReduceScatterPass_eq_calls] at member
    obtain ⟨call, made, member⟩ := List.mem_flatMap.mp member
    exact ⟨call, .reduceScatter ranks channels nonempty products (mem_elemOffsets_lt loops passed)
      made, member⟩

end Kernels

/-- The slice operations of the three kernels, the plain copies apart, are those of the calls. -/
def KernelsMakeCalls (fifoBytes : ℕ) : Prop :=
  ∀ nranks kChannels rank count channel dtype ops, 2 ≤ nranks → 1 ≤ kChannels → 1 ≤ count →
    count * kChannels < 2 ^ 64 →
    let args := buildArgs fifoBytes dtype rank count
    ringSimpleKernel nranks kChannels dtype args channel = some ops ∨
      ringSimpleAllGatherKernel nranks kChannels dtype args channel = some ops ∨
      ringSimpleReduceScatterKernel nranks kChannels dtype args channel = some ops →
    ∀ op ∈ ops, op.prim ≠ .copyWorker →
      ∃ call, KernelCall fifoBytes dtype call ∧ op ∈ call.ops dtype args

theorem kernels_make_calls (fifoBytes : ℕ) : KernelsMakeCalls fifoBytes := by
  intro nranks kChannels rank count channel dtype ops ranks channels nonempty products args runs op
    member primitive
  rcases runs with runs | runs | runs
  · exact exists_call_of_mem_ringSimpleKernel ranks channels nonempty products runs member
  · exact exists_call_of_mem_ringSimpleAllGatherKernel ranks channels nonempty products runs member
      primitive
  · exact exists_call_of_mem_ringSimpleReduceScatterKernel ranks channels nonempty products runs
      member

/-! ### The chunk of a call -/

section Chunks

variable {nranks : ℕ} {dtype : DType} {args : FifoArgs} {elemOffset : ℕ} {call : PrimCall}

theorem nelem_le_of_mem_ringSimpleCalls {part : CbdPart}
    (made : call ∈ ringSimpleCalls nranks dtype args part elemOffset) :
    call.nelem ≤ loopChunk nranks dtype args part (part.partCount - elemOffset) := by
  simp only [ringSimpleCalls, List.mem_append, List.mem_cons, List.mem_map, List.not_mem_nil,
    or_false] at made
  rcases made with ((rfl | ⟨j, -, rfl⟩) | rfl | ⟨j, -, rfl⟩) | rfl <;> exact nelem_le_chunk _ _ _

theorem nelem_of_mem_ringSimpleAllGatherCalls {part : ChannelPart}
    (made : call ∈ ringSimpleAllGatherCalls nranks args part elemOffset) :
    call.nelem = passWork args part elemOffset := by
  simp only [ringSimpleAllGatherCalls, List.mem_append, List.mem_cons, List.mem_map,
    List.not_mem_nil, or_false] at made
  rcases made with (rfl | ⟨j, -, rfl⟩) | rfl <;> rfl

theorem nelem_of_mem_ringSimpleReduceScatterCalls {part : ChannelPart}
    (made : call ∈ ringSimpleReduceScatterCalls nranks args part elemOffset) :
    call.nelem = passWork args part elemOffset := by
  simp only [ringSimpleReduceScatterCalls, List.mem_append, List.mem_cons, List.mem_map,
    List.not_mem_nil, or_false] at made
  rcases made with (rfl | ⟨j, -, rfl⟩) | rfl <;> rfl

end Chunks

/-! ### Slices of a chunk -/

theorem span_sliceLoop {sliceSize count : ℕ} (iterations offset : ℕ)
    (enough : count ≤ offset + iterations * sliceSize) :
    Span (min offset count) (sliceLoop sliceSize count iterations offset) count := by
  induction iterations generalizing offset with
  | zero =>
      rw [show min offset count = count by omega]
      exact .nil count
  | succ iterations ih =>
      rw [Nat.succ_mul] at enough
      have later := ih (offset + sliceSize) (by omega)
      by_cases inside : offset < count
      · have next : min offset count + min sliceSize (count - offset) =
            min (offset + sliceSize) count := by omega
        simp only [sliceLoop, if_pos inside, nelem_eq_min]
        split
        · rename_i nothing
          rw [nothing, Nat.add_zero] at next
          rwa [next]
        · rename_i something
          rw [show min offset count = offset by omega] at next ⊢
          exact .cons (Nat.pos_of_ne_zero something) (next ▸ later)
      · simp only [sliceLoop, if_neg inside, if_true]
        rwa [show min offset count = min (offset + sliceSize) count by omega]

/-- The slices of a chunk tile it. -/
theorem span_slices (dtype : DType) (nominalStepElems count : ℕ) :
    Span 0 (slices dtype nominalStepElems count) count := by
  have enough := le_two_mul_sliceElems dtype count nominalStepElems
  have span := span_sliceLoop (kChunkSteps / kSliceSteps) 0
    (show count ≤ 0 + 2 * sliceElems dtype count nominalStepElems by omega)
  rwa [Nat.zero_min] at span

/-! ### Posts -/

/-- A call whose slices fit: they tile its chunk, and each goes to its slot as a non-empty payload
whose size a 32-bit number holds. -/
structure PrimCall.Fits (fifoBytes : ℕ) (dtype : DType) (call : PrimCall) : Prop where
  nelem_le : call.nelem ≤ stepElems fifoBytes dtype
  tile : Span 0 (call.slices dtype (buildArgs fifoBytes dtype 0 0)) call.nelem
  length_le : (call.slices dtype (buildArgs fifoBytes dtype 0 0)).length ≤
    kChunkSteps / kSliceSteps
  nonempty : ∀ slice ∈ call.slices dtype (buildArgs fifoBytes dtype 0 0), 1 ≤ slice.2 * dtype.size
  bytes_le : ∀ slice ∈ call.slices dtype (buildArgs fifoBytes dtype 0 0),
    slice.2 * dtype.size ≤ fifoBytes / kFifoSteps
  lossless : ∀ slice ∈ call.slices dtype (buildArgs fifoBytes dtype 0 0),
    slice.2 * dtype.size % 2 ^ 32 = slice.2 * dtype.size
  inSlot : ∀ slice ∈ call.slices dtype (buildArgs fifoBytes dtype 0 0), ∀ step,
    kernelSlotOffset fifoBytes dtype step + slice.2 * dtype.size ≤
      proxySlotOffset fifoBytes step + proxySlotBytes fifoBytes

/-- A FIFO size of whole vectors for every step, with slots below 4 GiB. -/
structure FifoSize (fifoBytes : ℕ) : Prop where
  positive : 0 < fifoBytes
  aligned : kFifoSteps * kVectorBytes ∣ fifoBytes
  narrow : fifoBytes / kFifoSteps < 2 ^ 32

namespace FifoSize

variable {fifoBytes : ℕ} (size : FifoSize fifoBytes)

include size

theorem slotBytes_eq (dtype : DType) :
    stepElems fifoBytes dtype * dtype.size = fifoBytes / kFifoSteps := by
  obtain ⟨vectors, rfl⟩ := size.aligned
  have slot : kFifoSteps * kVectorBytes * vectors / kFifoSteps = kVectorBytes * vectors := by
    rw [Nat.mul_assoc, Nat.mul_div_cancel_left _ (by decide)]
  unfold stepElems
  rw [slot]
  refine Nat.div_mul_cancel (Dvd.dvd.mul_right ?_ vectors)
  cases dtype <;> decide

theorem vectorElems_dvd (dtype : DType) :
    kVectorBytes / dtype.size ∣ stepElems fifoBytes dtype := by
  obtain ⟨vectors, rfl⟩ := size.aligned
  have slot : kFifoSteps * kVectorBytes * vectors / kFifoSteps = kVectorBytes * vectors := by
    rw [Nat.mul_assoc, Nat.mul_div_cancel_left _ (by decide)]
  unfold stepElems
  rw [slot, Nat.mul_comm, Nat.mul_div_assoc _ (by cases dtype <;> decide)]
  exact dvd_mul_left _ _

theorem kernelSlotOffset_eq (dtype : DType) (step : ℕ) :
    kernelSlotOffset fifoBytes dtype step = proxySlotOffset fifoBytes step := by
  have whole := size.slotBytes_eq dtype
  unfold kernelSlotOffset proxySlotOffset proxySlotBytes buildArgs
  rw [Nat.mul_assoc, whole]

theorem fits_of_nelem_le {dtype : DType} {call : PrimCall}
    (small : call.nelem ≤ stepElems fifoBytes dtype) : call.Fits fifoBytes dtype := by
  have tile := span_slices dtype (stepElems fifoBytes dtype) call.nelem
  have bytes (slice : ℕ × ℕ) (member : slice ∈ call.slices dtype (buildArgs fifoBytes dtype 0 0)) :
      slice.2 * dtype.size ≤ fifoBytes / kFifoSteps := by
    have inside := (tile.bounds member).2.2
    rw [← size.slotBytes_eq dtype]
    exact Nat.mul_le_mul_right dtype.size (by omega)
  refine { nelem_le := small, tile, length_le := length_sliceLoop_le _ _ _ _,
           nonempty := ?_, bytes_le := bytes, lossless := ?_, inSlot := ?_ }
  · intro slice member
    exact Nat.mul_pos (tile.bounds member).2.1 dtype.size_pos
  · intro slice member
    exact Nat.mod_eq_of_lt ((bytes slice member).trans_lt size.narrow)
  · intro slice member step
    rw [size.kernelSlotOffset_eq]
    exact Nat.add_le_add_left (bytes slice member) _

theorem fits {dtype : DType} {call : PrimCall} (made : KernelCall fifoBytes dtype call) :
    call.Fits fifoBytes dtype := by
  refine size.fits_of_nelem_le ?_
  cases made with
  | allReduce ranks channels nonempty products inside made =>
      exact (nelem_le_of_mem_ringSimpleCalls made).trans
        (loopChunk_le (by omega) (vectorElems_dvd_chunkCount _ _ _ _ _)
          (size.vectorElems_dvd dtype))
  | allGather ranks channels nonempty products inside made =>
      rw [nelem_of_mem_ringSimpleAllGatherCalls made]
      exact (passWork_le _ _ _).1
  | reduceScatter ranks channels nonempty products inside made =>
      rw [nelem_of_mem_ringSimpleReduceScatterCalls made]
      exact (passWork_le _ _ _).1

end FifoSize

/-! ### The host proxies -/

/-- A payload of this many bytes is posted by some kernel. -/
def KernelPost (fifoBytes bytes : ℕ) : Prop :=
  ∃ dtype call, KernelCall fifoBytes dtype call ∧
    ∃ slice ∈ call.slices dtype (buildArgs fifoBytes dtype 0 0), bytes = slice.2 * dtype.size

theorem FifoSize.kernelPost {fifoBytes bytes : ℕ} (size : FifoSize fifoBytes)
    (posted : KernelPost fifoBytes bytes) :
    1 ≤ bytes ∧ bytes ≤ proxySlotBytes fifoBytes ∧ bytes < 2 ^ 32 := by
  obtain ⟨dtype, call, made, slice, member, rfl⟩ := posted
  have fits := size.fits made
  exact ⟨fits.nonempty slice member, fits.bytes_le slice member,
    (fits.bytes_le slice member).trans_lt size.narrow⟩

/-- The socket proxies take no exceptional and no empty path. -/
structure Socket.PlainSizes (link : Socket.Link) (state : Socket.State) : Prop where
  size : state.sender.proxy.pc = .size →
    1 ≤ state.sender.fifo.sizes (link.slot state.sender.proxy.step) ∧
      state.sender.fifo.sizes (link.slot state.sender.proxy.step) ≤ link.slotBytes
  send : ∀ iovs, state.sender.proxy.pc ≠ .send 0 iovs
  sendCapacity : state.sender.proxy.pc ≠ .payloadExceedsCapacity
  payload : ∀ cursor, state.receiver.proxy.pc ≠ .payload 0 cursor
  storeSize : state.receiver.proxy.pc ≠ .storeSize 0
  recvCapacity : state.receiver.proxy.pc ≠ .payloadExceedsCapacity

theorem Socket.plainSizes {link : Socket.Link} {state : Socket.State}
    (reach : Socket.Reachable link state)
    (nonempty : ∀ payload ∈ state.sender.fifo.published, 1 ≤ payload.length) :
    Socket.PlainSizes link state := by
  obtain ⟨completed, tailed, released, sent, got, inv⟩ := reach.good
  have sender := inv.sender
  have receiver := inv.receiver
  have long {k : ℕ} {payload : List UInt8}
      (found : state.sender.fifo.published[k]? = some payload) : 1 ≤ payload.length :=
    nonempty payload (List.mem_of_getElem? found)
  refine { size := ?_, send := ?_, sendCapacity := ?_, payload := ?_, storeSize := ?_,
           recvCapacity := ?_ }
  · intro at_pc
    rw [at_pc] at sender
    have found := List.getElem?_eq_getElem sender.2
    have stored := (inv.sendFifo.stored completed _ le_rfl found).1
    rw [inv.sendAt, stored]
    exact ⟨long found, (inv.sendFifo.publishable _ (List.mem_of_getElem? found)).1⟩
  · intro iovs at_pc
    rw [at_pc] at sender
    obtain ⟨payload, -, found, length, -⟩ := sender
    have := long found
    omega
  · intro at_pc
    rwa [at_pc] at sender
  · intro cursor at_pc
    rw [at_pc] at receiver
    obtain ⟨payload, found, length, -⟩ := receiver
    have := long found
    omega
  · intro at_pc
    rw [at_pc] at receiver
    obtain ⟨payload, found, length, -⟩ := receiver
    have := long found
    omega
  · intro at_pc
    rwa [at_pc] at receiver

/-- Both RDMA send proxies test the size of the next slice and go on to post it, and the receive
proxy finds its size within the slot. -/
theorem Rdma.SendRecv.plainSize {edge : Rdma.Edge} {state : Rdma.SendRecv.State}
    (reach : Rdma.SendRecv.Reachable edge state) {tail : ℕ} (at_pc : state.sender.pc = .size tail) :
    ∃ bytes, 1 ≤ bytes ∧ bytes ≤ edge.slotBytes ∧
      Rdma.SendRecv.sendStep edge state = some (state.sendGoto (.next tail bytes)) := by
  obtain ⟨completed, tailed, released, inv⟩ := reach.good
  have sender := inv.sender
  unfold Rdma.SendRecv.SendOk at sender
  rw [at_pc] at sender
  obtain ⟨-, payload, found, -⟩ := sender
  obtain ⟨positive, within, -⟩ := inv.sendFifo.publishable payload (List.mem_of_getElem? found)
  have stored := (inv.sendFifo.stored _ payload (inv.completed_le.trans inv.executed_le) found).1
  rw [← inv.nextPostStep] at stored
  refine ⟨payload.length, positive, within, ?_⟩
  unfold Rdma.SendRecv.sendStep
  simp only [at_pc, stored]
  rw [if_neg (by omega), if_neg (by omega)]

theorem Rdma.WriteCts.plainSize {edge : Rdma.Edge} {state : Rdma.WriteCts.State}
    (reach : Rdma.WriteCts.Reachable edge state) {tail : ℕ} (at_pc : state.sender.pc = .size tail) :
    ∃ bytes, 1 ≤ bytes ∧ bytes ≤ edge.slotBytes ∧
      Rdma.WriteCts.sendStep edge state = some (state.sendGoto (.ready tail bytes)) := by
  obtain ⟨completed, tailed, released, inv⟩ := reach.good
  have sender := inv.sender
  unfold Rdma.WriteCts.SendOk at sender
  rw [at_pc] at sender
  obtain ⟨nextPostStep, -, payload, found, -⟩ := sender
  obtain ⟨positive, within, -⟩ := inv.sendFifo.publishable payload (List.mem_of_getElem? found)
  have stored := (inv.sendFifo.stored _ payload (inv.completed_le.trans inv.executed_le) found).1
  rw [← nextPostStep] at stored
  refine ⟨payload.length, positive, within, ?_⟩
  unfold Rdma.WriteCts.sendStep
  simp only [at_pc, stored]
  have slot_lt : edge.slot state.sender.nextPostStep < edge.slotCount :=
    Nat.mod_lt _ edge.slotCount_pos
  rw [if_neg (by omega), if_neg (by omega), if_neg (by omega)]

theorem Rdma.WriteCts.immPayload {edge : Rdma.Edge} {state : Rdma.WriteCts.State}
    (reach : Rdma.WriteCts.Reachable edge state) :
    state.receiver.pc ≠ .failed .immPayloadExceedsCapacity := by
  obtain ⟨completed, tailed, released, inv⟩ := reach.good
  have receiver := inv.receiver
  intro failed
  simp [Rdma.WriteCts.RecvOk, failed] at receiver

/-- The three kinds of host proxies, with slots as the communicator cuts them, take every slice the
kernels post, and no run over such slices reaches an exception or a special case for its size. -/
structure ProxiesAccept (fifoBytes : ℕ) : Prop where
  socket : ∀ link : Socket.Link, link.slotBytes = proxySlotBytes fifoBytes →
    (∀ payload, KernelPost fifoBytes payload.length → link.Publishable payload) ∧
    ∀ state, Socket.Reachable link state →
      (∀ payload ∈ state.sender.fifo.published, KernelPost fifoBytes payload.length) →
        Socket.PlainSizes link state
  rdma : ∀ edge : Rdma.Edge, edge.slotBytes = proxySlotBytes fifoBytes →
    (∀ payload, KernelPost fifoBytes payload.length → edge.Publishable payload) ∧
    (∀ state, Rdma.SendRecv.Reachable edge state → ∀ tail, state.sender.pc = .size tail →
      ∃ bytes, 1 ≤ bytes ∧ bytes ≤ edge.slotBytes ∧
        Rdma.SendRecv.sendStep edge state = some (state.sendGoto (.next tail bytes))) ∧
    ∀ state, Rdma.WriteCts.Reachable edge state →
      (∀ tail, state.sender.pc = .size tail → ∃ bytes, 1 ≤ bytes ∧ bytes ≤ edge.slotBytes ∧
        Rdma.WriteCts.sendStep edge state = some (state.sendGoto (.ready tail bytes))) ∧
      state.receiver.pc ≠ .failed .immPayloadExceedsCapacity

theorem FifoSize.proxiesAccept {fifoBytes : ℕ} (size : FifoSize fifoBytes) :
    ProxiesAccept fifoBytes where
  socket := by
    intro link slots
    refine ⟨fun payload posted => ?_, fun state reach posted => ?_⟩
    · obtain ⟨-, within, narrow⟩ := size.kernelPost posted
      exact ⟨slots ▸ within, narrow⟩
    · exact Socket.plainSizes reach fun payload member =>
        (size.kernelPost (posted payload member)).1
  rdma := by
    intro edge slots
    refine ⟨fun payload posted => ?_, fun state reach tail at_pc => ?_, fun state reach => ?_⟩
    · obtain ⟨positive, within, narrow⟩ := size.kernelPost posted
      exact ⟨positive, slots ▸ within, narrow⟩
    · exact Rdma.SendRecv.plainSize reach at_pc
    · exact ⟨fun tail at_pc => Rdma.WriteCts.plainSize reach at_pc, Rdma.WriteCts.immPayload reach⟩

/-- Every slice the kernels post is non-empty and fits its slot, and the host proxies take it
without an exception or a special case. -/
theorem kernel_slices_fit {fifoBytes : ℕ} (size : FifoSize fifoBytes) :
    KernelsMakeCalls fifoBytes ∧
      (∀ dtype call, KernelCall fifoBytes dtype call → call.Fits fifoBytes dtype) ∧
      ProxiesAccept fifoBytes :=
  ⟨kernels_make_calls fifoBytes, fun _ _ made => size.fits made, size.proxiesAccept⟩

theorem kernel_slices_fit_default :
    KernelsMakeCalls kFifoBytes ∧
      (∀ dtype call, KernelCall kFifoBytes dtype call → call.Fits kFifoBytes dtype) ∧
      ProxiesAccept kFifoBytes :=
  kernel_slices_fit ⟨by decide, by decide, by decide⟩

end NanoNccl
