import NanoNccl.Partition
import NanoNccl.Rdma.Fifo
import NanoNccl.Socket.Proxy

/-!
# Slots of a network edge in every build

The size of a FIFO is a build option. A kernel cuts it into slots of `step_elems` elements, a host
proxy into slots of `kFifoBytes / kFifoSteps` bytes. Both divisions truncate. They cut the FIFO at
the same bytes for every element type exactly when a slot is a positive number of the largest
elements; otherwise the slots drift apart, and a slot without an element stops the element loops.
-/

namespace NanoNccl

/-- Launch arguments of a kernel over network edges in a build with FIFOs of `fifoBytes` bytes. -/
def buildArgs (fifoBytes : ℕ) (dtype : DType) (rank count : ℕ) : FifoArgs where
  rank := rank
  count := count
  slotElems := stepElems fifoBytes dtype
  stepElems := stepElems fifoBytes dtype

/-- Byte offset at which a kernel accesses the slot of a step. -/
def kernelSlotOffset (fifoBytes : ℕ) (dtype : DType) (step : ℕ) : ℕ :=
  step % kFifoSteps * (buildArgs fifoBytes dtype 0 0).slotElems * dtype.size

/-- Byte size of the slots the communicator hands to its socket and RDMA proxies. -/
def proxySlotBytes (fifoBytes : ℕ) : ℕ := fifoBytes / kFifoSteps

/-- Byte offset at which a proxy accesses the slot of a step. -/
def proxySlotOffset (fifoBytes step : ℕ) : ℕ := step % kFifoSteps * proxySlotBytes fifoBytes

/-- The socket proxies of an edge of the communicator. -/
theorem sendAddr_eq_proxySlotOffset {link : Socket.Link} {fifoBytes : ℕ}
    (slots : link.slotCount = kFifoSteps) (bytes : link.slotBytes = proxySlotBytes fifoBytes)
    (step : ℕ) :
    link.sendAddr (link.slot step) = link.sendData + proxySlotOffset fifoBytes step ∧
      link.recvAddr (link.slot step) = link.recvData + proxySlotOffset fifoBytes step := by
  unfold Socket.Link.sendAddr Socket.Link.recvAddr Socket.Link.slot proxySlotOffset
  rw [slots, bytes]
  exact ⟨rfl, rfl⟩

/-- The RDMA proxies of an edge of the communicator. -/
theorem rdma_sendAddr_eq_proxySlotOffset {edge : Rdma.Edge} {fifoBytes : ℕ}
    (slots : edge.slotCount = kFifoSteps) (bytes : edge.slotBytes = proxySlotBytes fifoBytes)
    (step : ℕ) :
    edge.sendAddr (edge.slot step) = edge.sendData + proxySlotOffset fifoBytes step ∧
      edge.recvAddr (edge.slot step) = edge.recvData + proxySlotOffset fifoBytes step := by
  unfold Rdma.Edge.sendAddr Rdma.Edge.recvAddr Rdma.Edge.slot proxySlotOffset
  rw [slots, bytes]
  exact ⟨rfl, rfl⟩

/-! ### The element loops -/

section Loops

variable {nranks kChannels channel elemOffset : ℕ} {dtype : DType} {args : FifoArgs}

/-- A pass of AllReduce advances. -/
theorem allReduce_advance_pos (ranks : 0 < nranks) (slots : 0 < args.slotElems)
    (inside : elemOffset < (cbdPart nranks kChannels dtype args.count channel).partCount) :
    0 < nranks * loopChunk nranks dtype args (cbdPart nranks kChannels dtype args.count channel)
      ((cbdPart nranks kChannels dtype args.count channel).partCount - elemOffset) :=
  Nat.mul_pos ranks (loopChunk_pos ranks (by omega) (chunkCount_pos ranks (by omega)) slots)

/-- A pass of AllGather or ReduceScatter advances. -/
theorem passWork_pos {part : ChannelPart} (slots : 0 < args.slotElems)
    (inside : elemOffset < part.partCount) : 0 < passWork args part elemOffset := by
  unfold passWork
  simp only
  split <;> omega

theorem passWork_of_no_slot {part : ChannelPart} (slots : args.slotElems = 0) :
    passWork args part elemOffset = 0 := by
  unfold passWork
  simp [slots]

/-- A loop that does not advance never ends. -/
theorem elemOffsets_eq_none {bound : ℕ} {advance : ℕ → ℕ} (stuck : ∀ offset, advance offset = 0)
    (fuel : ℕ) (inside : elemOffset < bound) :
    elemOffsets bound advance fuel elemOffset = none := by
  cases loops : elemOffsets bound advance fuel elemOffset with
  | none => rfl
  | some offsets =>
      obtain ⟨offset, -, low, high⟩ := exists_mem_elemOffsets loops le_rfl inside
      rw [stuck] at high
      omega

end Loops

/-- The element loops of the three kernels advance in every iteration and end. -/
structure LoopsAdvance (fifoBytes : ℕ) : Prop where
  allReduce : ∀ nranks kChannels dtype rank count channel elemOffset, 0 < nranks →
    let args := buildArgs fifoBytes dtype rank count
    let part := cbdPart nranks kChannels dtype count channel
    elemOffset < part.partCount →
      elemOffset < elemOffset + nranks * loopChunk nranks dtype args part
        (part.partCount - elemOffset)
  channels : ∀ kChannels dtype rank count channel elemOffset,
    let args := buildArgs fifoBytes dtype rank count
    let part := channelPart kChannels count channel
    elemOffset < part.partCount → elemOffset < elemOffset + passWork args part elemOffset
  ends : ∀ nranks kChannels dtype rank count channel, 0 < nranks → channel < kChannels →
    let args := buildArgs fifoBytes dtype rank count
    (ringSimpleKernel nranks kChannels dtype args channel).isSome = true ∧
      (ringSimpleAllGatherKernel nranks kChannels dtype args channel).isSome = true ∧
      (ringSimpleReduceScatterKernel nranks kChannels dtype args channel).isSome = true

theorem LoopsAdvance.of_stepElems_pos {fifoBytes : ℕ}
    (slots : ∀ dtype, 0 < stepElems fifoBytes dtype) : LoopsAdvance fifoBytes where
  allReduce := by
    intro nranks kChannels dtype rank count channel elemOffset ranks args part inside
    have slots_pos : 0 < args.slotElems := slots dtype
    exact Nat.lt_add_of_pos_right (allReduce_advance_pos ranks slots_pos inside)
  channels := by
    intro kChannels dtype rank count channel elemOffset args part inside
    have slots_pos : 0 < args.slotElems := slots dtype
    exact Nat.lt_add_of_pos_right (passWork_pos slots_pos inside)
  ends := by
    intro nranks kChannels dtype rank count channel ranks channel_lt args
    have slots_pos : 0 < args.slotElems := slots dtype
    have whole : (channelPart kChannels count channel).partCount ≤ 0 + count := by
      have := (channelPart_shares (by omega) count).inside channel channel_lt
      omega
    have passes := elemOffsets_isSome
      (fun offset inside => passWork_pos slots_pos inside) whole
    refine ⟨?_, ?_, ?_⟩
    · have whole : (cbdPart nranks kChannels dtype count channel).partCount ≤ 0 + count := by
        have := (cbdPart_shares nranks dtype (by omega) count).inside channel channel_lt
        omega
      have passes := elemOffsets_isSome (fun offset inside =>
        allReduce_advance_pos ranks slots_pos inside) whole
      unfold ringSimpleKernel
      dsimp only
      split
      · rfl
      · rw [Option.isSome_map]
        exact passes
    · unfold ringSimpleAllGatherKernel
      dsimp only
      split
      · rfl
      · rw [Option.isSome_map]
        exact passes
    · unfold ringSimpleReduceScatterKernel
      dsimp only
      split
      · rfl
      · rw [Option.isSome_map]
        exact passes

/-! ### Agreement -/

/-- Kernels and proxies agree on where a slot lives, a slot holds an element of each type, and the
element loops make progress. -/
structure SlotsAgree (fifoBytes : ℕ) : Prop where
  offset_eq : ∀ dtype step, kernelSlotOffset fifoBytes dtype step = proxySlotOffset fifoBytes step
  stepElems_pos : ∀ dtype, 0 < stepElems fifoBytes dtype
  loops : LoopsAdvance fifoBytes

theorem size_dvd_four (dtype : DType) : dtype.size ∣ 4 := by
  cases dtype <;> decide

/-- Kernels and proxies agree in exactly the builds whose slots are a positive multiple of four
bytes, the size of the largest element. -/
theorem slotsAgree_iff (fifoBytes : ℕ) :
    SlotsAgree fifoBytes ↔ 0 < fifoBytes / kFifoSteps ∧ 4 ∣ fifoBytes / kFifoSteps := by
  constructor
  · intro agree
    have floats : 0 < fifoBytes / kFifoSteps / 4 := agree.stepElems_pos .float
    -- The second slot starts one slot into the FIFO on both sides.
    have second : 1 * (fifoBytes / kFifoSteps / 4) * 4 = 1 * (fifoBytes / kFifoSteps) :=
      agree.offset_eq .float 1
    omega
  · rintro ⟨positive, aligned⟩
    have whole (dtype : DType) : stepElems fifoBytes dtype * dtype.size = fifoBytes / kFifoSteps :=
      Nat.div_mul_cancel ((size_dvd_four dtype).trans aligned)
    have slots (dtype : DType) : 0 < stepElems fifoBytes dtype := by
      refine Nat.pos_of_ne_zero fun empty => ?_
      have := whole dtype
      rw [empty, Nat.zero_mul] at this
      omega
    refine ⟨fun dtype step => ?_, slots, .of_stepElems_pos slots⟩
    calc
      kernelSlotOffset fifoBytes dtype step
          = step % kFifoSteps * (stepElems fifoBytes dtype * dtype.size) := Nat.mul_assoc _ _ _
      _ = proxySlotOffset fifoBytes step := by rw [whole]; rfl

/-- Slots of six bytes: the kernel sees the second slot at byte 4, the proxies at byte 6. With slots
of two bytes no float fits, and the all-gather loop over a single element never ends. -/
theorem slots_disagree :
    kernelSlotOffset 48 .float 1 = 4 ∧ proxySlotOffset 48 1 = 6 ∧ stepElems 16 .float = 0 ∧
      ∀ fuel, elemOffsets 1
        (passWork (buildArgs 16 .float 0 1) (channelPart 1 1 0)) fuel 0 = none := by
  exact ⟨rfl, rfl, rfl, fun fuel => elemOffsets_eq_none (fun _ => passWork_of_no_slot rfl) fuel
    Nat.one_pos⟩

end NanoNccl
