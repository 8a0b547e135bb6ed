import NanoNccl.Bootstrap.Topology
import NanoNccl.Communicator.Args
import NanoNccl.Lib.WordArith
import NanoNccl.Partition

/-!
# The partition arithmetic on machine words

`validate_args` bounds byte counts and addresses, the partition multiplies element counts by channel
numbers. The additions, subtractions and products of the source are written down here under any
arithmetic, so that running them with a check of every result says where 64 bits are not enough.
-/

namespace NanoNccl
namespace Communicator

open Bootstrap (TransportKind)
open WordArith

/-! ### The source under any arithmetic -/

namespace Words

variable (arith : Arith)

/-- `div_up` -/
def divUp (value divisor : ℕ) : Option ℕ := do
  let sum ← arith.add value divisor
  let reach ← arith.sub sum 1
  return reach / divisor

/-- `align_up` -/
def alignUp (value alignment : ℕ) : Option ℕ := do
  let pieces ← divUp arith value alignment
  arith.mul pieces alignment

/-- `slice_elems` -/
def sliceElems (dtype : DType) (count nominalStepElems : ℕ) : Option ℕ := do
  let vectorElems := kVectorBytes / dtype.size
  let pieces ← divUp arith count (vectorElems * kChunkSteps / kSliceSteps)
  let byCount ← arith.mul pieces vectorElems
  let steps ← arith.mul nominalStepElems kSliceSteps
  let byStep := steps / 32
  return if byCount > byStep then byCount else byStep

/-- `cbd_part` -/
def cbdPart (kRanks kChannels : ℕ) (dtype : DType) (count channel : ℕ) : Option CbdPart := do
  let begin₀ ← arith.mul count channel
  let stop₀ ← arith.mul count (channel + 1)
  let vectorElems := kVectorBytes / dtype.size
  let begin ← arith.mul (begin₀ / kChannels / vectorElems) vectorElems
  let stop ←
    (if channel + 1 ≠ kChannels then arith.mul (stop₀ / kChannels / vectorElems) vectorElems
      else some (stop₀ / kChannels))
  let partCount ← arith.sub stop begin
  let chunkCount ←
    (if partCount = 0 then some 0
      else divUp arith partCount kRanks >>= fun chunk =>
        alignUp arith chunk (simpleGrainElems dtype))
  return { partOffset := begin, partCount, chunkCount }

/-- `channel_part` -/
def channelPart (kChannels count channel : ℕ) : Option ChannelPart := do
  let begin₀ ← arith.mul count channel
  let stop₀ ← arith.mul count (channel + 1)
  let partCount ← arith.sub (stop₀ / kChannels) (begin₀ / kChannels)
  return { partOffset := begin₀ / kChannels, partCount }

/-- The ring chunk of a pass of `ring_simple_kernel`. -/
def loopChunk (nranks : ℕ) (dtype : DType) (slotElems : ℕ) (part : CbdPart) (remCount : ℕ) :
    Option ℕ := do
  let chunk := loopChunkElems part.chunkCount slotElems
  let whole ← arith.mul nranks chunk
  if remCount < whole then
    divUp arith remCount nranks >>= fun piece => alignUp arith piece (kVectorBytes / dtype.size)
  else some chunk

/-- Ring chunks `ring_simple_kernel` works on, in order. -/
def ringSimpleChunks (nranks rank : ℕ) : List ℕ :=
  (rank + nranks - 1) % nranks ::
    (List.range' 2 (nranks - 2)).map (fun j => (rank + nranks - j) % nranks) ++
    rank :: (List.range' 1 (nranks - 2)).map (fun j => (rank + nranks - j) % nranks) ++
    [(rank + 1) % nranks]

/-- Element offset and slice size of the primitive call of `ring_simple_kernel` on a chunk. -/
def ringSimpleCall (dtype : DType) (args : FifoArgs) (part : CbdPart)
    (elemOffset remCount loopChunk chunk : ℕ) : Option (ℕ × ℕ) := do
  let chunkOffset ← arith.mul chunk loopChunk
  let start ← arith.add part.partOffset elemOffset
  let offset ← arith.add start chunkOffset
  let slice ← sliceElems arith dtype (nelem loopChunk remCount chunkOffset) args.stepElems
  return (offset, slice)

/-- A pass of `ring_simple_kernel`: its primitive calls, and the next `elem_offset`. -/
def ringSimplePass (nranks : ℕ) (dtype : DType) (args : FifoArgs) (part : CbdPart)
    (elemOffset : ℕ) : Option (List (ℕ × ℕ) × ℕ) := do
  let remCount ← arith.sub part.partCount elemOffset
  let loopChunk ← loopChunk arith nranks dtype args.slotElems part remCount
  let loopCount ← arith.mul nranks loopChunk
  let calls ← (ringSimpleChunks nranks args.rank).mapM
    (ringSimpleCall arith dtype args part elemOffset remCount loopChunk)
  let next ← arith.add elemOffset loopCount
  return (calls, next)

/-- Ranks `ring_simple_all_gather_kernel` writes output of, in order. -/
def gatherRanks (nranks rank : ℕ) : List ℕ :=
  rank :: (List.range' 1 (nranks - 2)).map (fun step => (rank + nranks - step) % nranks) ++
    [(rank + 1) % nranks]

/-- Chunks `ring_simple_reduce_scatter_kernel` reads input of, in order. -/
def scatterChunks (nranks rank : ℕ) : List ℕ :=
  (rank + nranks - 1) % nranks ::
    (List.range' 2 (nranks - 2)).map (fun step => (rank + nranks - step) % nranks) ++ [rank]

/-- Element offset in the block of a rank, with the slice size of the pass. -/
def blockCall (count inner slice rank : ℕ) : Option (ℕ × ℕ) := do
  let block ← arith.mul rank count
  let offset ← arith.add block inner
  return (offset, slice)

/-- A pass of `ring_simple_all_gather_kernel` or `ring_simple_reduce_scatter_kernel`: its calls in
the blocks of the large buffer, and the next `elem_offset`. -/
def blocksPass (ranks : List ℕ) (dtype : DType) (args : FifoArgs) (part : ChannelPart)
    (elemOffset : ℕ) : Option (List (ℕ × ℕ) × ℕ) := do
  let remaining ← arith.sub part.partCount elemOffset
  let work := if remaining < args.slotElems then remaining else args.slotElems
  let inner ← arith.add part.partOffset elemOffset
  let slice ← sliceElems arith dtype work args.stepElems
  let calls ← ranks.mapM (blockCall arith args.count inner slice)
  let next ← arith.add elemOffset work
  return (calls, next)

/-- What `ensure_fifo_buffers` reads of the communicator. -/
structure FifoSetup where
  /-- `topology_.distributed` -/
  distributed : Bool
  /-- `transport_plan_.edge_kind` -/
  edgeKind : ℕ → TransportKind
  /-- `is_local_global_rank` -/
  isLocal : ℕ → Bool

/-- An edge whose FIFOs this process allocates in shared memory. -/
def FifoSetup.shmEdge (setup : FifoSetup) (kRanks edge : ℕ) : Bool :=
  setup.edgeKind edge = .shm ∧ setup.isLocal edge ∧ setup.isLocal ((edge + 1) % kRanks)

/-- `required_slot_elems` for the channel shares of an element count. -/
def FifoSetup.requiredSlotElems (setup : FifoSetup) (fifoBytes : ℕ) (dtype : DType)
    (parts : List CbdPart) : ℕ :=
  if setup.distributed then stepElems fifoBytes dtype
  else (parts.map CbdPart.chunkCount).foldr max 1

/-- `ensure_fifo_buffers` when the resources have slots of `slotElems` elements: nothing when they
are large enough, else the new slot size and the sizes of the FIFOs allocated in shared memory. -/
def ensureFifoBuffers (kRanks kChannels fifoBytes : ℕ) (setup : FifoSetup) (dtype : DType)
    (slotElems count : ℕ) : Option (Option (ℕ × List ℕ)) := do
  let parts ← (List.range kChannels).mapM fun channel =>
    cbdPart arith kRanks kChannels dtype count channel
  let required := setup.requiredSlotElems fifoBytes dtype parts
  if required ≤ slotElems then return none
  else
    let fifos ← ((List.range kChannels).flatMap fun _ =>
        (List.range kRanks).filter (setup.shmEdge kRanks)).mapM fun _ =>
      arith.mul kFifoSteps required
    return some (required, fifos)

/-- A build of the library, with the ranges of its constants: `int`s and a `std::size_t`. -/
structure Build where
  kRanks : ℕ
  kChannels : ℕ
  /-- `kFifoBytes` -/
  fifoBytes : ℕ
  ranks_pos : 0 < kRanks
  ranks_lt : kRanks < 2 ^ 31
  channels_pos : 0 < kChannels
  channels_lt : kChannels < 2 ^ 31
  fifoBytes_le : fifoBytes ≤ sizeMax

/-- Launch arguments of a rank whose FIFOs have slots of `slotElems` elements. -/
def Build.args (build : Build) (dtype : DType) (rank count slotElems : ℕ) : FifoArgs where
  rank := rank
  count := count
  slotElems := slotElems
  stepElems := stepElems build.fifoBytes dtype

/-- `ring_simple_kernel` at one value of `elem_offset`: the share of the channel, and the pass when
the loop goes on. -/
def ringSimpleKernelAt (build : Build) (dtype : DType) (args : FifoArgs)
    (channel elemOffset : ℕ) : Option (CbdPart × Option (List (ℕ × ℕ) × ℕ)) := do
  let part ← cbdPart arith build.kRanks build.kChannels dtype args.count channel
  if elemOffset < part.partCount then
    let pass ← ringSimplePass arith build.kRanks dtype args part elemOffset
    return (part, some pass)
  else return (part, none)

/-- The two other kernels at one value of `elem_offset`. -/
def blocksKernelAt (build : Build) (ranks : List ℕ) (dtype : DType) (args : FifoArgs)
    (channel elemOffset : ℕ) : Option (ChannelPart × Option (List (ℕ × ℕ) × ℕ)) := do
  let part ← channelPart arith build.kChannels args.count channel
  if elemOffset < part.partCount then
    let pass ← blocksPass arith ranks dtype args part elemOffset
    return (part, some pass)
  else return (part, none)

/-! ### Arithmetics that agree -/

section Mono

variable {first second : Arith} (refines : first.Refines second)

include refines

theorem divUp_mono (value divisor : ℕ) :
    Refines (divUp first value divisor) (divUp second value divisor) :=
  (refines.add _ _).bind fun _ => (refines.sub _ _).bind fun _ => .refl _

theorem alignUp_mono (value alignment : ℕ) :
    Refines (alignUp first value alignment) (alignUp second value alignment) :=
  (divUp_mono refines _ _).bind fun _ => refines.mul _ _

theorem sliceElems_mono (dtype : DType) (count nominalStepElems : ℕ) :
    Refines (sliceElems first dtype count nominalStepElems)
      (sliceElems second dtype count nominalStepElems) :=
  (divUp_mono refines _ _).bind fun _ => (refines.mul _ _).bind fun _ =>
    (refines.mul _ _).bind fun _ => .refl _

theorem cbdPart_mono (kRanks kChannels : ℕ) (dtype : DType) (count channel : ℕ) :
    Refines (cbdPart first kRanks kChannels dtype count channel)
      (cbdPart second kRanks kChannels dtype count channel) := by
  refine (refines.mul _ _).bind fun _ => (refines.mul _ _).bind fun _ =>
    (refines.mul _ _).bind fun _ => Refines.bind ?_ fun _ => (refines.sub _ _).bind fun _ =>
      Refines.bind ?_ fun _ => .refl _
  · split
    · exact refines.mul _ _
    · exact .refl _
  · split
    · exact .refl _
    · exact (divUp_mono refines _ _).bind fun _ => alignUp_mono refines _ _

theorem channelPart_mono (kChannels count channel : ℕ) :
    Refines (channelPart first kChannels count channel)
      (channelPart second kChannels count channel) :=
  (refines.mul _ _).bind fun _ => (refines.mul _ _).bind fun _ =>
    (refines.sub _ _).bind fun _ => .refl _

theorem loopChunk_mono (nranks : ℕ) (dtype : DType) (slotElems : ℕ) (part : CbdPart)
    (remCount : ℕ) :
    Refines (loopChunk first nranks dtype slotElems part remCount)
      (loopChunk second nranks dtype slotElems part remCount) := by
  refine (refines.mul _ _).bind fun whole => ?_
  split
  · exact (divUp_mono refines _ _).bind fun _ => alignUp_mono refines _ _
  · exact .refl _

theorem ringSimpleCall_mono (dtype : DType) (args : FifoArgs) (part : CbdPart)
    (elemOffset remCount loopChunk chunk : ℕ) :
    Refines (ringSimpleCall first dtype args part elemOffset remCount loopChunk chunk)
      (ringSimpleCall second dtype args part elemOffset remCount loopChunk chunk) :=
  (refines.mul _ _).bind fun _ => (refines.add _ _).bind fun _ => (refines.add _ _).bind fun _ =>
    (sliceElems_mono refines _ _ _).bind fun _ => .refl _

theorem blockCall_mono (count inner slice rank : ℕ) :
    Refines (blockCall first count inner slice rank) (blockCall second count inner slice rank) :=
  (refines.mul _ _).bind fun _ => (refines.add _ _).bind fun _ => .refl _

theorem ringSimplePass_mono (nranks : ℕ) (dtype : DType) (args : FifoArgs) (part : CbdPart)
    (elemOffset : ℕ) :
    Refines (ringSimplePass first nranks dtype args part elemOffset)
      (ringSimplePass second nranks dtype args part elemOffset) :=
  (refines.sub _ _).bind fun _ => (loopChunk_mono refines _ _ _ _ _).bind fun _ =>
    (refines.mul _ _).bind fun _ =>
      (Refines.mapM fun _ => ringSimpleCall_mono refines _ _ _ _ _ _ _).bind fun _ =>
        (refines.add _ _).bind fun _ => .refl _

theorem blocksPass_mono (ranks : List ℕ) (dtype : DType) (args : FifoArgs) (part : ChannelPart)
    (elemOffset : ℕ) :
    Refines (blocksPass first ranks dtype args part elemOffset)
      (blocksPass second ranks dtype args part elemOffset) :=
  (refines.sub _ _).bind fun _ => (refines.add _ _).bind fun _ =>
    (sliceElems_mono refines _ _ _).bind fun _ =>
      (Refines.mapM fun _ => blockCall_mono refines _ _ _ _).bind fun _ =>
        (refines.add _ _).bind fun _ => .refl _

theorem ensureFifoBuffers_mono (kRanks kChannels fifoBytes : ℕ) (setup : FifoSetup) (dtype : DType)
    (slotElems count : ℕ) :
    Refines (ensureFifoBuffers first kRanks kChannels fifoBytes setup dtype slotElems count)
      (ensureFifoBuffers second kRanks kChannels fifoBytes setup dtype slotElems count) := by
  refine (Refines.mapM fun _ => cbdPart_mono refines _ _ _ _ _).bind fun parts => ?_
  dsimp only
  split
  · exact .refl _
  · exact (Refines.mapM fun _ => refines.mul _ _).bind fun _ => .refl _

theorem ringSimpleKernelAt_mono (build : Build) (dtype : DType) (args : FifoArgs)
    (channel elemOffset : ℕ) :
    Refines (ringSimpleKernelAt first build dtype args channel elemOffset)
      (ringSimpleKernelAt second build dtype args channel elemOffset) := by
  refine (cbdPart_mono refines _ _ _ _ _).bind fun part => ?_
  split
  · exact (ringSimplePass_mono refines _ _ _ _ _).bind fun _ => .refl _
  · exact .refl _

theorem blocksKernelAt_mono (build : Build) (ranks : List ℕ) (dtype : DType) (args : FifoArgs)
    (channel elemOffset : ℕ) :
    Refines (blocksKernelAt first build ranks dtype args channel elemOffset)
      (blocksKernelAt second build ranks dtype args channel elemOffset) := by
  refine (channelPart_mono refines _ _ _).bind fun part => ?_
  split
  · exact (blocksPass_mono refines _ _ _ _ _).bind fun _ => .refl _
  · exact .refl _

end Mono

/-! ### Results that fit -/

section Fits

variable {bound : ℕ}

theorem divUp_checked {value divisor : ℕ} (positive : 0 < divisor)
    (fits : value + divisor ≤ bound) :
    divUp (checked bound) value divisor = some (NanoNccl.divUp value divisor) := by
  simp only [divUp, checked_add fits, checked_sub (show 1 ≤ value + divisor by omega) fits,
    Option.bind_eq_bind, Option.bind_some, NanoNccl.divUp, Option.pure_def]

theorem divUp_mul_le (value divisor : ℕ) :
    NanoNccl.divUp value divisor * divisor ≤ value + divisor - 1 :=
  Nat.div_mul_le_self _ _

theorem alignUp_checked {value alignment : ℕ} (positive : 0 < alignment)
    (fits : value + alignment ≤ bound) :
    alignUp (checked bound) value alignment = some (NanoNccl.alignUp value alignment) := by
  have product : NanoNccl.divUp value alignment * alignment ≤ bound :=
    (divUp_mul_le value alignment).trans (by omega)
  simp only [alignUp, divUp_checked positive fits, Option.bind_eq_bind, Option.bind_some,
    checked_mul product, NanoNccl.alignUp]

theorem sliceElems_checked (dtype : DType) {count nominalStepElems : ℕ}
    (count_fits : count + 16 ≤ bound) (step_fits : nominalStepElems * kSliceSteps ≤ bound) :
    sliceElems (checked bound) dtype count nominalStepElems =
      some (NanoNccl.sliceElems dtype count nominalStepElems) := by
  obtain ⟨positive, small, dvd⟩ : 0 < kVectorBytes / dtype.size * kChunkSteps / kSliceSteps ∧
      kVectorBytes / dtype.size * kChunkSteps / kSliceSteps ≤ 16 ∧
      kVectorBytes / dtype.size ≤ kVectorBytes / dtype.size * kChunkSteps / kSliceSteps := by
    cases dtype <;> decide
  have pieces := divUp_mul_le count (kVectorBytes / dtype.size * kChunkSteps / kSliceSteps)
  have product : NanoNccl.divUp count (kVectorBytes / dtype.size * kChunkSteps / kSliceSteps) *
      (kVectorBytes / dtype.size) ≤ bound :=
    (Nat.mul_le_mul_left _ dvd).trans (by omega)
  have sum : count + kVectorBytes / dtype.size * kChunkSteps / kSliceSteps ≤ bound := by omega
  simp only [sliceElems, divUp_checked positive sum, Option.bind_eq_bind, Option.bind_some,
    checked_mul product, checked_mul step_fits, Option.pure_def, NanoNccl.sliceElems]

theorem divUp_le_self (value : ℕ) {divisor : ℕ} (positive : 0 < divisor) :
    NanoNccl.divUp value divisor ≤ value :=
  divUp_le (Nat.le_mul_of_pos_right value positive) positive

theorem simpleGrainElems_bounds (dtype : DType) :
    0 < simpleGrainElems dtype ∧ simpleGrainElems dtype ≤ 256 := by
  cases dtype <;> decide

theorem share_le {kChannels count channel : ℕ} (channel_le : channel ≤ kChannels) :
    count * channel / kChannels ≤ count := by
  rcases Nat.eq_zero_or_pos kChannels with rfl | positive
  · simp
  · refine Nat.div_le_of_le_mul ?_
    rw [Nat.mul_comm kChannels]
    exact Nat.mul_le_mul_left count channel_le

theorem cbdPart_checked {kRanks kChannels count channel : ℕ} (dtype : DType) (ranks : 0 < kRanks)
    (channel_lt : channel < kChannels) (product : count * (channel + 1) ≤ bound)
    (pieces : count + kRanks ≤ bound) (grain : count + simpleGrainElems dtype ≤ bound) :
    cbdPart (checked bound) kRanks kChannels dtype count channel =
      some (NanoNccl.cbdPart kRanks kChannels dtype count channel) := by
  have begin_product : count * channel ≤ bound :=
    (Nat.mul_le_mul_left count (Nat.le_succ channel)).trans product
  have begin_le : count * channel / kChannels ≤ count * (channel + 1) / kChannels :=
    Nat.div_le_div_right (Nat.mul_le_mul_left count (Nat.le_succ channel))
  have stop_le : count * (channel + 1) / kChannels ≤ count := share_le channel_lt
  generalize vector : kVectorBytes / dtype.size = vectorElems
  have begin_aligned := Nat.div_mul_le_self (count * channel / kChannels) vectorElems
  have stop_aligned := Nat.div_mul_le_self (count * (channel + 1) / kChannels) vectorElems
  have aligned_le := Nat.mul_le_mul_right vectorElems
    (Nat.div_le_div_right begin_le : count * channel / kChannels / vectorElems ≤ _)
  have rounded : count * channel / kChannels / vectorElems * vectorElems ≤ bound := by omega
  obtain ⟨stop, stop_eq, stop_exact, begin_le_stop, stop_le⟩ : ∃ stop,
      (if channel + 1 ≠ kChannels then
        (checked bound).mul (count * (channel + 1) / kChannels / vectorElems) vectorElems
        else some (count * (channel + 1) / kChannels)) = some stop ∧
      (if channel + 1 ≠ kChannels then
        count * (channel + 1) / kChannels / vectorElems * vectorElems
        else count * (channel + 1) / kChannels) = stop ∧
      count * channel / kChannels / vectorElems * vectorElems ≤ stop ∧ stop ≤ count := by
    by_cases inner : channel + 1 ≠ kChannels
    · rw [if_pos inner, if_pos inner]
      exact ⟨_, checked_mul (by omega), rfl, aligned_le, by omega⟩
    · rw [if_neg inner, if_neg inner]
      exact ⟨_, rfl, rfl, by omega, by omega⟩
  have grain_pos := (simpleGrainElems_bounds dtype).1
  have chunk_eq : (if stop - count * channel / kChannels / vectorElems * vectorElems = 0 then some 0
      else (divUp (checked bound) (stop - count * channel / kChannels / vectorElems * vectorElems)
          kRanks).bind fun chunk => alignUp (checked bound) chunk (simpleGrainElems dtype)) =
      some (if stop - count * channel / kChannels / vectorElems * vectorElems = 0 then 0
        else NanoNccl.alignUp (NanoNccl.divUp
          (stop - count * channel / kChannels / vectorElems * vectorElems) kRanks)
          (simpleGrainElems dtype)) := by
    have small := divUp_le_self (stop - count * channel / kChannels / vectorElems * vectorElems)
      ranks
    split
    · rfl
    · rw [divUp_checked ranks (by omega), Option.bind_some,
        alignUp_checked grain_pos (by omega)]
  simp only [cbdPart, vector, checked_mul begin_product, checked_mul product, checked_mul rounded,
    stop_eq, checked_sub begin_le_stop (show stop ≤ bound by omega), chunk_eq, Option.bind_eq_bind,
    Option.bind_some, Option.pure_def, NanoNccl.cbdPart, stop_exact]

theorem channelPart_checked (kChannels : ℕ) {count channel : ℕ}
    (product : count * (channel + 1) ≤ bound) :
    channelPart (checked bound) kChannels count channel =
      some (NanoNccl.channelPart kChannels count channel) := by
  have begin_product : count * channel ≤ bound :=
    (Nat.mul_le_mul_left count (Nat.le_succ channel)).trans product
  have begin_le : count * channel / kChannels ≤ count * (channel + 1) / kChannels :=
    Nat.div_le_div_right (Nat.mul_le_mul_left count (Nat.le_succ channel))
  have stop_le : count * (channel + 1) / kChannels ≤ bound :=
    (Nat.div_le_self _ _).trans product
  simp only [channelPart, checked_mul begin_product, checked_mul product,
    checked_sub begin_le stop_le, Option.bind_eq_bind, Option.bind_some, Option.pure_def,
    NanoNccl.channelPart]

/-! ### Passes -/

/-- Rounding the ring chunk up costs less than one unit for every rank. -/
theorem mul_alignUp_divUp_le {nranks value alignment : ℕ} (ranks : 0 < nranks) :
    nranks * NanoNccl.alignUp (NanoNccl.divUp value nranks) alignment ≤
      value + nranks * alignment := by
  have whole := divUp_mul_le (NanoNccl.divUp value nranks) alignment
  have pieces := divUp_mul_le value nranks
  calc
    nranks * NanoNccl.alignUp (NanoNccl.divUp value nranks) alignment
        ≤ nranks * (NanoNccl.divUp value nranks + alignment - 1) := Nat.mul_le_mul_left nranks whole
    _ = NanoNccl.divUp value nranks * nranks + nranks * alignment - nranks := by
      rw [Nat.mul_sub, Nat.mul_add, Nat.mul_one, Nat.mul_comm nranks]
    _ ≤ value + nranks * alignment := by omega

theorem mul_chunkCount_le {kRanks : ℕ} (kChannels : ℕ) (dtype : DType) (count channel : ℕ)
    (ranks : 0 < kRanks) :
    kRanks * (NanoNccl.cbdPart kRanks kChannels dtype count channel).chunkCount ≤
      (NanoNccl.cbdPart kRanks kChannels dtype count channel).partCount +
        kRanks * simpleGrainElems dtype := by
  by_cases empty : (NanoNccl.cbdPart kRanks kChannels dtype count channel).partCount = 0
  · rw [show (NanoNccl.cbdPart kRanks kChannels dtype count channel).chunkCount = 0 from
      if_pos empty]
    omega
  · rw [show (NanoNccl.cbdPart kRanks kChannels dtype count channel).chunkCount =
      NanoNccl.alignUp (NanoNccl.divUp _ kRanks) (simpleGrainElems dtype) from if_neg empty]
    exact mul_alignUp_divUp_le ranks

theorem vectorElems_bounds (dtype : DType) :
    0 < kVectorBytes / dtype.size ∧ kVectorBytes / dtype.size ≤ 8 := by
  cases dtype <;> decide

section Pass

variable {nranks remCount : ℕ} {dtype : DType} {args : FifoArgs} {part : CbdPart}

theorem mul_loopChunkElems_le (nranks : ℕ) (part : CbdPart) (slotElems : ℕ) :
    nranks * loopChunkElems part.chunkCount slotElems ≤ nranks * part.chunkCount := by
  refine Nat.mul_le_mul_left nranks ?_
  unfold loopChunkElems
  split <;> omega

theorem loopChunk_checked (ranks : 0 < nranks) (chunks : nranks * part.chunkCount ≤ bound)
    (pieces : remCount + nranks ≤ bound) (vectors : remCount + kVectorBytes / dtype.size ≤ bound) :
    loopChunk (checked bound) nranks dtype args.slotElems part remCount =
      some (NanoNccl.loopChunk nranks dtype args part remCount) := by
  have vector_pos := vectorElems_pos dtype
  have small := divUp_le_self remCount ranks
  have whole := (mul_loopChunkElems_le nranks part args.slotElems).trans chunks
  simp only [loopChunk, checked_mul whole, Option.bind_eq_bind, Option.bind_some,
    NanoNccl.loopChunk]
  split
  · rw [divUp_checked ranks (by omega), Option.bind_some, alignUp_checked vector_pos (by omega)]
  · rfl

theorem mul_loopChunk_le (dtype : DType) (args : FifoArgs) (part : CbdPart) (remCount : ℕ)
    (ranks : 0 < nranks) :
    nranks * NanoNccl.loopChunk nranks dtype args part remCount ≤
      remCount + nranks * (kVectorBytes / dtype.size) := by
  unfold NanoNccl.loopChunk
  dsimp only
  split
  · exact mul_alignUp_divUp_le ranks
  · omega

theorem lt_of_mem_ringSimpleChunks {rank chunk : ℕ} (rank_lt : rank < nranks)
    (member : chunk ∈ ringSimpleChunks nranks rank) : chunk < nranks := by
  have ranks : 0 < nranks := by omega
  simp only [ringSimpleChunks, List.mem_append, List.mem_cons, List.mem_map, List.not_mem_nil,
    or_false] at member
  rcases member with ((rfl | ⟨j, -, rfl⟩) | rfl | ⟨j, -, rfl⟩) | rfl
  all_goals first | exact rank_lt | exact Nat.mod_lt _ ranks

/-- A pass of AllReduce fits as long as two element counts and some rounding do. -/
theorem ringSimplePass_isSome {count elemOffset : ℕ} (rank_lt : args.rank < nranks)
    (inside : part.partOffset + part.partCount ≤ count) (chunks : nranks * part.chunkCount ≤ bound)
    (slack : 2 * count + nranks * 8 + 16 ≤ bound) (steps : args.stepElems * kSliceSteps ≤ bound)
    (started : elemOffset < part.partCount) :
    (ringSimplePass (checked bound) nranks dtype args part elemOffset).isSome = true := by
  have ranks : 0 < nranks := by omega
  have loopCount := mul_loopChunk_le dtype args part (part.partCount - elemOffset) ranks
  have vector_le := (vectorElems_bounds dtype).2
  have vectors := Nat.mul_le_mul_left nranks vector_le
  generalize loopChunk_eq :
      NanoNccl.loopChunk nranks dtype args part (part.partCount - elemOffset) =
    loopChunk at loopCount
  have calls : (ringSimpleChunks nranks args.rank).mapM (ringSimpleCall (checked bound) dtype args
      part elemOffset (part.partCount - elemOffset) loopChunk) =
    some ((ringSimpleChunks nranks args.rank).map fun chunk =>
      (part.partOffset + elemOffset + chunk * loopChunk,
        NanoNccl.sliceElems dtype
          (nelem loopChunk (part.partCount - elemOffset) (chunk * loopChunk)) args.stepElems)) := by
    refine mapM_eq_some ?_
    intro chunk member
    have chunk_lt := lt_of_mem_ringSimpleChunks rank_lt member
    have below : chunk * loopChunk ≤ nranks * loopChunk :=
      Nat.mul_le_mul_right loopChunk chunk_lt.le
    have work_le := nelem_le_remCount loopChunk (part.partCount - elemOffset) (chunk * loopChunk)
    simp only [ringSimpleCall, checked_mul (show chunk * loopChunk ≤ bound by omega),
      checked_add (show part.partOffset + elemOffset ≤ bound by omega),
      checked_add (show part.partOffset + elemOffset + chunk * loopChunk ≤ bound by omega),
      sliceElems_checked dtype
        (show nelem loopChunk (part.partCount - elemOffset) (chunk * loopChunk) + 16 ≤ bound by
          omega)
        steps, Option.bind_eq_bind, Option.bind_some, Option.pure_def]
  simp only [ringSimplePass, checked_sub started.le (show part.partCount ≤ bound by omega),
    loopChunk_checked ranks chunks (show part.partCount - elemOffset + nranks ≤ bound by omega)
      (show part.partCount - elemOffset + kVectorBytes / dtype.size ≤ bound by omega),
    loopChunk_eq, checked_mul (show nranks * loopChunk ≤ bound by omega), calls,
    checked_add (show elemOffset + nranks * loopChunk ≤ bound by omega), Option.bind_eq_bind,
    Option.bind_some, Option.pure_def, Option.isSome_some]

end Pass

/-- A pass of AllGather or ReduceScatter fits as long as the large buffer does. -/
theorem blocksPass_isSome {nranks elemOffset : ℕ} {ranks : List ℕ} {dtype : DType} {args : FifoArgs}
    {part : ChannelPart} (ranks_lt : ∀ rank ∈ ranks, rank < nranks)
    (inside : part.partOffset + part.partCount ≤ args.count)
    (blocks : nranks * args.count ≤ bound) (slack : args.count + 16 ≤ bound)
    (steps : args.stepElems * kSliceSteps ≤ bound) (started : elemOffset < part.partCount) :
    (blocksPass (checked bound) ranks dtype args part elemOffset).isSome = true := by
  have work_le : (if part.partCount - elemOffset < args.slotElems then part.partCount - elemOffset
      else args.slotElems) ≤ part.partCount - elemOffset := by
    split <;> omega
  generalize work_eq : (if part.partCount - elemOffset < args.slotElems then
    part.partCount - elemOffset else args.slotElems) = work at work_le
  generalize slice_eq : NanoNccl.sliceElems dtype work args.stepElems = slice
  have calls : ranks.mapM
      (blockCall (checked bound) args.count (part.partOffset + elemOffset) slice) =
      some (ranks.map fun rank =>
        (rank * args.count + (part.partOffset + elemOffset), slice)) := by
    refine mapM_eq_some ?_
    intro rank member
    have rank_lt := ranks_lt rank member
    have block : (rank + 1) * args.count ≤ nranks * args.count :=
      Nat.mul_le_mul_right args.count rank_lt
    rw [Nat.succ_mul] at block
    simp only [blockCall, checked_mul (show rank * args.count ≤ bound by omega),
      checked_add (show rank * args.count + (part.partOffset + elemOffset) ≤ bound by omega),
      Option.bind_eq_bind, Option.bind_some, Option.pure_def]
  simp only [blocksPass, checked_sub started.le (show part.partCount ≤ bound by omega), work_eq,
    checked_add (show part.partOffset + elemOffset ≤ bound by omega),
    sliceElems_checked dtype (show work + 16 ≤ bound by omega) steps, slice_eq, calls,
    checked_add (show elemOffset + work ≤ bound by omega), Option.bind_eq_bind, Option.bind_some,
    Option.pure_def, Option.isSome_some]

/-! ### Slots in shared memory -/

/-- Eight slots of a ring chunk fit when the share leaves room for the rounding. -/
theorem slots_fit_iff {kRanks kChannels count channel : ℕ} (dtype : DType) (ranks : 0 < kRanks) :
    kFifoSteps * (NanoNccl.cbdPart kRanks kChannels dtype count channel).chunkCount ≤ sizeMax ↔
      (NanoNccl.cbdPart kRanks kChannels dtype count channel).partCount ≤
        kRanks * (2 ^ 61 - simpleGrainElems dtype) := by
  obtain ⟨grain_pos, grain_le⟩ := simpleGrainElems_bounds dtype
  have aligned : simpleGrainElems dtype ∣ 2 ^ 61 - simpleGrainElems dtype := by
    cases dtype <;> decide
  generalize part_eq : NanoNccl.cbdPart kRanks kChannels dtype count channel = part
  have chunk_eq : part.chunkCount = if part.partCount = 0 then 0 else
      NanoNccl.alignUp (NanoNccl.divUp part.partCount kRanks) (simpleGrainElems dtype) := by
    rw [← part_eq]
    rfl
  by_cases empty : part.partCount = 0
  · rw [chunk_eq, if_pos empty, empty]
    exact iff_of_true (Nat.zero_le _) (Nat.zero_le _)
  rw [chunk_eq, if_neg empty]
  constructor
  · intro fits
    have chunk_lt : NanoNccl.alignUp (NanoNccl.divUp part.partCount kRanks)
        (simpleGrainElems dtype) < 2 ^ 61 := by
      simp only [kFifoSteps, sizeMax] at fits
      omega
    have chunk_le : NanoNccl.alignUp (NanoNccl.divUp part.partCount kRanks)
        (simpleGrainElems dtype) ≤ 2 ^ 61 - simpleGrainElems dtype := by
      -- Both numbers are multiples of the grain.
      obtain ⟨grains, grains_eq⟩ := aligned
      have below : NanoNccl.divUp (NanoNccl.divUp part.partCount kRanks) (simpleGrainElems dtype) <
          grains + 1 := by
        refine Nat.lt_of_mul_lt_mul_right (a := simpleGrainElems dtype) ?_
        rw [Nat.add_mul, Nat.mul_comm grains, ← grains_eq]
        exact chunk_lt.trans_le (by omega)
      rw [grains_eq, Nat.mul_comm]
      exact Nat.mul_le_mul_right _ (Nat.le_of_lt_succ below)
    have whole := le_alignUp (NanoNccl.divUp part.partCount kRanks) grain_pos
    calc
      part.partCount ≤ NanoNccl.divUp part.partCount kRanks * kRanks := le_divUp_mul _ ranks
      _ ≤ (2 ^ 61 - simpleGrainElems dtype) * kRanks :=
        Nat.mul_le_mul_right kRanks (whole.trans chunk_le)
      _ = kRanks * (2 ^ 61 - simpleGrainElems dtype) := Nat.mul_comm _ _
  · intro small
    have piece : NanoNccl.divUp part.partCount kRanks ≤ 2 ^ 61 - simpleGrainElems dtype :=
      divUp_le (by rwa [Nat.mul_comm]) ranks
    have chunk := alignUp_le piece aligned grain_pos
    simp only [kFifoSteps, sizeMax]
    omega

end Fits

/-! ### The machine of the communicator -/

section Machine

variable (build : Build) {dtype : DType} {count channel elemOffset : ℕ}

/-- Boundary of the channel shares of a buffer, before `channel`, in exact integers. -/
def boundary (kChannels : ℕ) (dtype : DType) (count channel : ℕ) : ℕ :=
  if channel = kChannels then count
  else count * channel / kChannels / (kVectorBytes / dtype.size) * (kVectorBytes / dtype.size)

theorem partCount_eq_boundary (kRanks : ℕ) {kChannels : ℕ} (channel_lt : channel < kChannels) :
    (NanoNccl.cbdPart kRanks kChannels dtype count channel).partCount =
      boundary kChannels dtype count (channel + 1) - boundary kChannels dtype count channel := by
  have whole : count * kChannels / kChannels = count := Nat.mul_div_cancel count (by omega)
  unfold boundary
  rw [if_neg channel_lt.ne]
  by_cases last : channel + 1 = kChannels
  · simp only [NanoNccl.cbdPart, last, ne_eq, not_true_eq_false, if_false, if_true, whole]
  · simp only [NanoNccl.cbdPart, last, ne_eq, not_false_eq_true, if_true, if_false]

theorem product_le {kChannels channel : ℕ} (channel_lt : channel < kChannels)
    (products : count * kChannels ≤ sizeMax) : count * (channel + 1) ≤ sizeMax :=
  (Nat.mul_le_mul_left count channel_lt).trans products

theorem stepElems_steps_le (dtype : DType) :
    stepElems build.fifoBytes dtype * kSliceSteps ≤ sizeMax := by
  have bytes := build.fifoBytes_le
  have steps : stepElems build.fifoBytes dtype ≤ build.fifoBytes / kFifoSteps :=
    Nat.div_le_self _ _
  simp only [kFifoSteps, kSliceSteps] at steps ⊢
  omega

theorem stepElems_slots_le (dtype : DType) :
    kFifoSteps * stepElems build.fifoBytes dtype ≤ sizeMax := by
  have bytes := build.fifoBytes_le
  have steps : stepElems build.fifoBytes dtype ≤ build.fifoBytes / kFifoSteps :=
    Nat.div_le_self _ _
  simp only [kFifoSteps] at steps ⊢
  omega

/-- What 64 bits suffice for in `ensure_fifo_buffers`: the products of `cbd_part`, and the sizes of
FIFOs in shared memory where the process makes any for whole chunks. -/
structure FifosFit (setup : FifoSetup) (dtype : DType) (count : ℕ) : Prop where
  products : count * build.kChannels ≤ sizeMax
  slots : setup.distributed = false →
    (∃ edge < build.kRanks, setup.shmEdge build.kRanks edge = true) →
      ∀ channel < build.kChannels,
        boundary build.kChannels dtype count (channel + 1) -
            boundary build.kChannels dtype count channel ≤
          build.kRanks * (2 ^ 61 - simpleGrainElems dtype)

theorem parts_checked (products : count * build.kChannels ≤ sizeMax)
    (slack : count + build.kRanks + 256 ≤ sizeMax) :
    (List.range build.kChannels).mapM (cbdPart (checked sizeMax) build.kRanks build.kChannels dtype
        count) =
      some ((List.range build.kChannels).map
        (NanoNccl.cbdPart build.kRanks build.kChannels dtype count)) :=
  mapM_eq_some fun _ member =>
    cbdPart_checked dtype build.ranks_pos (List.mem_range.mp member)
      (product_le (List.mem_range.mp member) products) (by omega)
      (by have := (simpleGrainElems_bounds dtype).2; omega)

/-- The end of the last channel already leaves 64 bits. -/
theorem parts_overflow (outside : sizeMax < count * build.kChannels) :
    (List.range build.kChannels).mapM (cbdPart (checked sizeMax) build.kRanks build.kChannels dtype
      count) = none := by
  have last : build.kChannels - 1 ∈ List.range build.kChannels :=
    List.mem_range.mpr (Nat.sub_lt build.channels_pos Nat.one_pos)
  have product : (checked sizeMax).mul count (build.kChannels - 1 + 1) = none :=
    checked_mul_eq_none (by rwa [Nat.sub_add_cancel build.channels_pos])
  have refused : cbdPart (checked sizeMax) build.kRanks build.kChannels dtype count
      (build.kChannels - 1) = none := by
    rw [cbdPart, product]
    cases (checked sizeMax).mul count (build.kChannels - 1) <;> rfl
  rw [← Option.not_isSome_iff_eq_none, isSome_mapM_iff]
  intro all
  have returned := all _ last
  rw [refused] at returned
  cases returned

theorem foldr_max_le_iff {values : List ℕ} {least bound : ℕ} :
    values.foldr max least ≤ bound ↔ least ≤ bound ∧ ∀ value ∈ values, value ≤ bound := by
  induction values with
  | nil => simp
  | cons head values ih =>
      rw [List.foldr_cons, max_le_iff, ih, List.forall_mem_cons]
      exact and_left_comm

/-- Whole slots of the required size can be counted when whole chunks of every share can. -/
theorem requiredSlots_le_iff (setup : FifoSetup) :
    kFifoSteps * setup.requiredSlotElems build.fifoBytes dtype ((List.range build.kChannels).map
        (NanoNccl.cbdPart build.kRanks build.kChannels dtype count)) ≤ sizeMax ↔
      (setup.distributed = false → ∀ channel < build.kChannels,
        boundary build.kChannels dtype count (channel + 1) -
            boundary build.kChannels dtype count channel ≤
          build.kRanks * (2 ^ 61 - simpleGrainElems dtype)) := by
  cases single : setup.distributed with
  | true =>
      rw [FifoSetup.requiredSlotElems, if_pos single]
      exact ⟨fun _ => by rintro ⟨⟩, fun _ => stepElems_slots_le build dtype⟩
  | false =>
      have eighth (elems : ℕ) : kFifoSteps * elems ≤ sizeMax ↔ elems ≤ sizeMax / kFifoSteps := by
        rw [Nat.le_div_iff_mul_le (by decide), Nat.mul_comm]
      rw [FifoSetup.requiredSlotElems, if_neg (by simp [single]), eighth, foldr_max_le_iff]
      simp only [List.map_map, List.forall_mem_map, List.mem_range, Function.comp, forall_const]
      constructor
      · rintro ⟨-, chunks⟩ channel channel_lt
        rw [← partCount_eq_boundary build.kRanks channel_lt, ← slots_fit_iff dtype build.ranks_pos,
          eighth]
        exact chunks channel channel_lt
      · intro shares
        refine ⟨by decide, fun channel channel_lt => ?_⟩
        rw [← eighth, slots_fit_iff dtype build.ranks_pos, partCount_eq_boundary build.kRanks
          channel_lt]
        exact shares channel channel_lt

/-- The FIFOs are counted only for resources that are too small, and only for edges in shared
memory. -/
theorem isSome_ensureFifoBuffers_iff (setup : FifoSetup) (slotElems : ℕ)
    (products : count * build.kChannels ≤ sizeMax)
    (slack : count + build.kRanks + 256 ≤ sizeMax) :
    (ensureFifoBuffers (checked sizeMax) build.kRanks build.kChannels build.fifoBytes setup dtype
        slotElems count).isSome = true ↔
      let required := setup.requiredSlotElems build.fifoBytes dtype
        ((List.range build.kChannels).map
          (NanoNccl.cbdPart build.kRanks build.kChannels dtype count))
      required ≤ slotElems ∨ ((∃ edge < build.kRanks, setup.shmEdge build.kRanks edge = true) →
        kFifoSteps * required ≤ sizeMax) := by
  rw [ensureFifoBuffers, parts_checked build products slack]
  simp only [Option.bind_eq_bind, Option.bind_some]
  generalize setup.requiredSlotElems build.fifoBytes dtype _ = required
  split
  · next enough => simp [enough]
  · next small =>
      have bound (items : List ℕ) : ((items.mapM fun _ => (checked sizeMax).mul kFifoSteps
          required).bind fun fifos => some (some (required, fifos))).isSome = true ↔
            ∀ _item ∈ items, kFifoSteps * required ≤ sizeMax := by
        simp only [← isSome_checked_mul_iff, ← isSome_mapM_iff]
        cases items.mapM fun _ => (checked sizeMax).mul kFifoSteps required <;> rfl
      refine (bound _).trans ?_
      simp only [small, false_or, List.mem_flatMap, List.mem_filter, List.mem_range]
      constructor
      · rintro each ⟨edge, edge_lt, shared⟩
        exact each edge ⟨0, build.channels_pos, edge_lt, shared⟩
      · rintro sized edge ⟨-, -, edge_lt, shared⟩
        exact sized ⟨edge, edge_lt, shared⟩

/-- `ensure_fifo_buffers` keeps within 64 bits from every state of its resources exactly when the
products and the slots do. -/
theorem ensureFifoBuffers_isSome_iff (setup : FifoSetup)
    (slack : count + build.kRanks + 256 ≤ sizeMax) :
    (∀ slotElems, (ensureFifoBuffers (checked sizeMax) build.kRanks build.kChannels build.fifoBytes
      setup dtype slotElems count).isSome = true) ↔ FifosFit build setup dtype count := by
  constructor
  · intro fits
    have products : count * build.kChannels ≤ sizeMax := by
      by_contra outside
      have returned := fits 0
      rw [ensureFifoBuffers, parts_overflow build (not_le.mp outside)] at returned
      cases returned
    refine ⟨products, fun single shared => (requiredSlots_le_iff build setup).mp ?_ single⟩
    -- Fresh resources are replaced.
    rcases (isSome_ensureFifoBuffers_iff build setup 0 products slack).mp (fits 0) with none | sized
    · rw [Nat.le_zero.mp none]
      exact Nat.zero_le _
    · exact sized shared
  · rintro ⟨products, slots⟩ slotElems
    refine (isSome_ensureFifoBuffers_iff build setup slotElems products slack).mpr (.inr ?_)
    intro shared
    exact (requiredSlots_le_iff build setup).mpr fun single => slots single shared

/-- One value of `elem_offset` in `ring_simple_kernel`. -/
theorem ringSimpleKernelAt_isSome {rank slotElems : ℕ} (rank_lt : rank < build.kRanks)
    (channel_lt : channel < build.kChannels) (products : count * build.kChannels ≤ sizeMax)
    (small : 4 * count ≤ sizeMax) :
    (ringSimpleKernelAt (checked sizeMax) build dtype (build.args dtype rank count slotElems)
      channel elemOffset).isSome = true := by
  have ranks_lt := build.ranks_lt
  have grain_le := (simpleGrainElems_bounds dtype).2
  have grains := Nat.mul_le_mul_left build.kRanks grain_le
  have part := cbdPart_checked dtype build.ranks_pos channel_lt (product_le channel_lt products)
    (by simp only [sizeMax] at small ⊢; omega) (by simp only [sizeMax] at small ⊢; omega)
  have inside := (cbdPart_shares build.kRanks dtype build.channels_pos count).inside channel
      channel_lt
  have chunks := mul_chunkCount_le build.kChannels dtype count channel build.ranks_pos
  unfold ringSimpleKernelAt
  rw [show (build.args dtype rank count slotElems).count = count from rfl, part]
  simp only [Option.bind_eq_bind, Option.bind_some]
  split
  · rename_i started
    have pass : (ringSimplePass (checked sizeMax) build.kRanks dtype
        (build.args dtype rank count slotElems) _ elemOffset).isSome = true :=
      ringSimplePass_isSome rank_lt inside (by simp only [sizeMax] at small ⊢; omega)
        (by simp only [sizeMax] at small ⊢; omega) (stepElems_steps_le build dtype) started
    obtain ⟨value, returned⟩ := Option.isSome_iff_exists.mp pass
    rw [returned]
    rfl
  · rfl

/-- One value of `elem_offset` in the two other kernels. -/
theorem blocksKernelAt_isSome {ranks : List ℕ} {rank slotElems : ℕ}
    (ranks_lt : ∀ rank ∈ ranks, rank < build.kRanks) (channel_lt : channel < build.kChannels)
    (products : count * build.kChannels ≤ sizeMax) (small : 2 * (count * build.kRanks) ≤ sizeMax) :
    (blocksKernelAt (checked sizeMax) build ranks dtype (build.args dtype rank count slotElems)
      channel elemOffset).isSome = true := by
  have part := channelPart_checked build.kChannels (product_le channel_lt products)
  have inside := (channelPart_shares build.channels_pos count).inside channel channel_lt
  have blocks : build.kRanks * count ≤ sizeMax := by
    rw [Nat.mul_comm]
    omega
  have count_le : count ≤ count * build.kRanks := Nat.le_mul_of_pos_right count build.ranks_pos
  unfold blocksKernelAt
  rw [show (build.args dtype rank count slotElems).count = count from rfl, part]
  simp only [Option.bind_eq_bind, Option.bind_some]
  split
  · rename_i started
    have pass : (blocksPass (checked sizeMax) ranks dtype (build.args dtype rank count slotElems) _
        elemOffset).isSome = true :=
      blocksPass_isSome ranks_lt inside blocks
        (show count + 16 ≤ sizeMax by simp only [sizeMax] at small ⊢; omega)
        (stepElems_steps_le build dtype) started
    obtain ⟨value, returned⟩ := Option.isSome_iff_exists.mp pass
    rw [returned]
    rfl
  · rfl

theorem lt_of_mem_gatherRanks {rank member : ℕ} (rank_lt : rank < build.kRanks)
    (found : member ∈ gatherRanks build.kRanks rank) : member < build.kRanks := by
  have ranks := build.ranks_pos
  simp only [gatherRanks, List.mem_append, List.mem_cons, List.mem_map, List.not_mem_nil,
    or_false] at found
  rcases found with (rfl | ⟨j, -, rfl⟩) | rfl
  all_goals first | exact rank_lt | exact Nat.mod_lt _ ranks

theorem lt_of_mem_scatterChunks {rank member : ℕ} (rank_lt : rank < build.kRanks)
    (found : member ∈ scatterChunks build.kRanks rank) : member < build.kRanks := by
  have ranks := build.ranks_pos
  simp only [scatterChunks, List.mem_append, List.mem_cons, List.mem_map, List.not_mem_nil,
    or_false] at found
  rcases found with (rfl | ⟨j, -, rfl⟩) | rfl
  all_goals first | exact rank_lt | exact Nat.mod_lt _ ranks

end Machine

end Words

/-! ### Accepted calls -/

/-- The element count `run_typed` sizes the FIFOs for. -/
def Call.fifoCount (kRanks : ℕ) : Call → ℕ
  | .allReduce _ count _ _ => count
  | .reduceScatter _ count _ _ | .allGather _ count _ => count * kRanks

open Words in
/-- A property of every computation of a call that multiplies or adds sizes: sizing the FIFOs from
any state of the resources, and each kernel block at each value of `elem_offset`. -/
structure Within (Holds : ∀ {α : Type}, (Arith → Option α) → Prop) (build : Build)
    (setup : FifoSetup) (call : Call) : Prop where
  fifos : ∀ slotElems, Holds fun arith =>
    Words.ensureFifoBuffers arith build.kRanks build.kChannels build.fifoBytes setup call.dtype
      slotElems (call.fifoCount build.kRanks)
  kernels : ∀ slotElems rank channel elemOffset, rank < build.kRanks → channel < build.kChannels →
    match call with
    | .allReduce _ count dtype _ => Holds fun arith =>
        ringSimpleKernelAt arith build dtype (build.args dtype rank count slotElems) channel
          elemOffset
    | .reduceScatter _ count dtype _ => Holds fun arith =>
        blocksKernelAt arith build (scatterChunks build.kRanks rank) dtype
          (build.args dtype rank count slotElems) channel elemOffset
    | .allGather _ count dtype => Holds fun arith =>
        blocksKernelAt arith build (gatherRanks build.kRanks rank) dtype
          (build.args dtype rank count slotElems) channel elemOffset

/-- No result exceeds the largest `size_t`. -/
def NoOverflow : Words.Build → Words.FifoSetup → Call → Prop :=
  Within fun program => (program (checked sizeMax)).isSome = true

/-- 64-bit words compute the exact integers. -/
def ComputesExactly : Words.Build → Words.FifoSetup → Call → Prop :=
  Within fun program => program (wrapping (2 ^ 64)) = program exact

variable {build : Words.Build} {setup : Words.FifoSetup} {call : Call}

theorem NoOverflow.computesExactly (within : NoOverflow build setup call) :
    ComputesExactly build setup call where
  fifos slotElems :=
    wrapping_eq_exact (fun _ _ refines => Words.ensureFifoBuffers_mono refines _ _ _ _ _ _ _)
      (by decide) (within.fifos slotElems)
  kernels slotElems rank channel elemOffset rank_lt channel_lt := by
    have passes := within.kernels slotElems rank channel elemOffset rank_lt channel_lt
    cases call with
    | allReduce =>
        exact wrapping_eq_exact
          (fun _ _ refines => Words.ringSimpleKernelAt_mono refines _ _ _ _ _) (by decide) passes
    | reduceScatter =>
        exact wrapping_eq_exact
          (fun _ _ refines => Words.blocksKernelAt_mono refines _ _ _ _ _ _) (by decide) passes
    | allGather =>
        exact wrapping_eq_exact
          (fun _ _ refines => Words.blocksKernelAt_mono refines _ _ _ _ _ _) (by decide) passes

/-- Two disjoint buffers share the address space. -/
theorem ValidBuffers.bytes_add_le {args : BufferArgs} {sendCount recvCount : ℕ} {dtype : DType}
    (valid : ValidBuffers args sendCount recvCount dtype) :
    2 * (sendCount + recvCount) ≤ sizeMax := by
  have size : 2 ≤ dtype.size := by cases dtype <;> decide
  have sends := Nat.mul_le_mul_left sendCount size
  have recvs := Nat.mul_le_mul_left recvCount size
  have sendEnd := valid.sendEnd_le
  have recvEnd := valid.recvEnd_le
  rcases valid.disjoint with apart | apart <;> omega

/-- An accepted call stays within 64 bits exactly when the FIFO element count times the number of
channels does and, where shared-memory FIFOs hold whole chunks, their size does; its ranges then are
the exact ones. -/
theorem noOverflow_iff (accepted : validateArgs build.kRanks call = .ok ()) :
    (NoOverflow build setup call ↔
      Words.FifosFit build setup call.dtype (call.fifoCount build.kRanks)) ∧
    (NoOverflow build setup call → ComputesExactly build setup call) := by
  refine ⟨?_, NoOverflow.computesExactly⟩
  have ranks_pos := build.ranks_pos
  have ranks_lt := build.ranks_lt
  have bytes := ((validateArgs_ok_iff ranks_pos).mp accepted).bytes_add_le
  have slack : call.fifoCount build.kRanks + build.kRanks + 256 ≤ sizeMax := by
    simp only [sizeMax] at bytes ⊢
    cases call <;> simp only [Call.sendCount, Call.recvCount, Call.fifoCount] at bytes ⊢ <;> omega
  rw [← Words.ensureFifoBuffers_isSome_iff build setup slack]
  refine ⟨fun within => within.fifos, fun fifos => ⟨fifos, ?_⟩⟩
  have products := ((Words.ensureFifoBuffers_isSome_iff build setup slack).mp fifos).products
  intro slotElems rank channel elemOffset rank_lt channel_lt
  cases call with
  | allReduce buffers count dtype redop =>
      simp only [Call.sendCount, Call.recvCount] at bytes
      exact Words.ringSimpleKernelAt_isSome build rank_lt channel_lt products (by omega)
  | reduceScatter buffers count dtype redop =>
      simp only [Call.sendCount, Call.recvCount, Call.fifoCount] at bytes products
      have narrower : count * build.kChannels ≤ count * build.kRanks * build.kChannels :=
        Nat.mul_le_mul_right _ (Nat.le_mul_of_pos_right count ranks_pos)
      exact Words.blocksKernelAt_isSome build
        (fun _ => Words.lt_of_mem_scatterChunks build rank_lt) channel_lt
        (narrower.trans products) (by omega)
  | allGather buffers count dtype =>
      simp only [Call.sendCount, Call.recvCount, Call.fifoCount] at bytes products
      have narrower : count * build.kChannels ≤ count * build.kRanks * build.kChannels :=
        Nat.mul_le_mul_right _ (Nat.le_mul_of_pos_right count ranks_pos)
      exact Words.blocksKernelAt_isSome build
        (fun _ => Words.lt_of_mem_gatherRanks build rank_lt) channel_lt
        (narrower.trans products) (by omega)

/-! ### The geometry of the schedules -/

namespace Words

theorem divUp_exact (value divisor : ℕ) :
    divUp exact value divisor = some (NanoNccl.divUp value divisor) := rfl

theorem alignUp_exact (value alignment : ℕ) :
    alignUp exact value alignment = some (NanoNccl.alignUp value alignment) := rfl

theorem sliceElems_exact (dtype : DType) (count nominalStepElems : ℕ) :
    sliceElems exact dtype count nominalStepElems =
      some (NanoNccl.sliceElems dtype count nominalStepElems) := rfl

theorem cbdPart_exact (kRanks kChannels : ℕ) (dtype : DType) (count channel : ℕ) :
    cbdPart exact kRanks kChannels dtype count channel =
      some (NanoNccl.cbdPart kRanks kChannels dtype count channel) := by
  unfold cbdPart NanoNccl.cbdPart
  simp only [exact_mul, exact_sub, Option.bind_eq_bind, Option.bind_some, Option.pure_def]
  by_cases inner : channel + 1 ≠ kChannels
  · simp only [if_pos inner, Option.bind_some]
    split_ifs <;> rfl
  · simp only [if_neg inner, Option.bind_some]
    split_ifs <;> rfl

theorem loopChunk_exact (nranks : ℕ) (dtype : DType) (args : FifoArgs) (part : CbdPart)
    (remCount : ℕ) :
    loopChunk exact nranks dtype args.slotElems part remCount =
      some (NanoNccl.loopChunk nranks dtype args part remCount) := by
  unfold loopChunk NanoNccl.loopChunk
  simp only [exact_mul, Option.bind_eq_bind, Option.bind_some]
  split_ifs <;> rfl

/-- What a block of `ring_simple_kernel` computes at one value of `elem_offset` are the share, the
chunk offsets and the slice sizes of its schedule. -/
theorem ringSimpleKernelAt_exact (build : Build) (dtype : DType) (args : FifoArgs)
    (channel elemOffset : ℕ) :
    ringSimpleKernelAt exact build dtype args channel elemOffset =
      let part := NanoNccl.cbdPart build.kRanks build.kChannels dtype args.count channel
      let remCount := part.partCount - elemOffset
      let loopChunk := NanoNccl.loopChunk build.kRanks dtype args part remCount
      some (part, if elemOffset < part.partCount then
        some ((ringSimpleChunks build.kRanks args.rank).map fun chunk =>
            (part.partOffset + elemOffset + chunk * loopChunk,
              NanoNccl.sliceElems dtype (nelem loopChunk remCount (chunk * loopChunk))
                args.stepElems),
          elemOffset + build.kRanks * loopChunk)
        else none) := by
  unfold ringSimpleKernelAt
  rw [cbdPart_exact]
  simp only [Option.bind_eq_bind, Option.bind_some]
  split_ifs
  · have calls (part : CbdPart) (remCount loopChunk : ℕ) :
        (ringSimpleChunks build.kRanks args.rank).mapM
          (ringSimpleCall exact dtype args part elemOffset remCount loopChunk) = some _ :=
      mapM_eq_some fun _ _ => rfl
    unfold ringSimplePass
    simp only [exact_sub, loopChunk_exact, exact_mul, calls, Option.bind_eq_bind, Option.bind_some]
    rfl
  · rfl

/-- The same for a block of the two other kernels. -/
theorem blocksKernelAt_exact (build : Build) (ranks : List ℕ) (dtype : DType) (args : FifoArgs)
    (channel elemOffset : ℕ) :
    blocksKernelAt exact build ranks dtype args channel elemOffset =
      let part := NanoNccl.channelPart build.kChannels args.count channel
      let work := passWork args part elemOffset
      some (part, if elemOffset < part.partCount then
        some (ranks.map fun rank => (rank * args.count + (part.partOffset + elemOffset),
            NanoNccl.sliceElems dtype work args.stepElems),
          elemOffset + work)
        else none) := by
  have calls (inner slice : ℕ) :
      ranks.mapM (blockCall exact args.count inner slice) = some _ := mapM_eq_some fun _ _ => rfl
  unfold blocksKernelAt
  rw [show channelPart exact build.kChannels args.count channel =
    some (NanoNccl.channelPart build.kChannels args.count channel) from rfl]
  simp only [Option.bind_eq_bind, Option.bind_some]
  split_ifs
  · unfold blocksPass passWork
    simp only [sliceElems_exact, calls, Option.bind_eq_bind, Option.bind_some]
    rfl
  · rfl

end Words

/-- For an accepted call that fits, the kernels on 64-bit words follow the schedules, which are
stated over exact integers: the same shares, the same element offsets, the same slice sizes. -/
theorem wrapping_eq_schedule (accepted : validateArgs build.kRanks call = .ok ())
    (fits : Words.FifosFit build setup call.dtype (call.fifoCount build.kRanks))
    {slotElems rank channel elemOffset : ℕ} (rank_lt : rank < build.kRanks)
    (channel_lt : channel < build.kChannels) :
    match call with
    | .allReduce _ count dtype _ =>
        let args := build.args dtype rank count slotElems
        Words.ringSimpleKernelAt (wrapping (2 ^ 64)) build dtype args channel elemOffset =
          let part := cbdPart build.kRanks build.kChannels dtype count channel
          let remCount := part.partCount - elemOffset
          let loopChunk := loopChunk build.kRanks dtype args part remCount
          some (part, if elemOffset < part.partCount then
            some ((Words.ringSimpleChunks build.kRanks rank).map fun chunk =>
                (part.partOffset + elemOffset + chunk * loopChunk,
                  sliceElems dtype (nelem loopChunk remCount (chunk * loopChunk)) args.stepElems),
              elemOffset + build.kRanks * loopChunk)
            else none)
    | .reduceScatter _ count dtype _ =>
        let args := build.args dtype rank count slotElems
        Words.blocksKernelAt (wrapping (2 ^ 64)) build (Words.scatterChunks build.kRanks rank) dtype
            args channel elemOffset =
          let part := channelPart build.kChannels count channel
          let work := passWork args part elemOffset
          some (part, if elemOffset < part.partCount then
            some ((Words.scatterChunks build.kRanks rank).map fun chunk =>
                (chunk * count + (part.partOffset + elemOffset),
                  sliceElems dtype work args.stepElems),
              elemOffset + work)
            else none)
    | .allGather _ count dtype =>
        let args := build.args dtype rank count slotElems
        Words.blocksKernelAt (wrapping (2 ^ 64)) build (Words.gatherRanks build.kRanks rank) dtype
            args channel elemOffset =
          let part := channelPart build.kChannels count channel
          let work := passWork args part elemOffset
          some (part, if elemOffset < part.partCount then
            some ((Words.gatherRanks build.kRanks rank).map fun source =>
                (source * count + (part.partOffset + elemOffset),
                  sliceElems dtype work args.stepElems),
              elemOffset + work)
            else none) := by
  have same := ((noOverflow_iff accepted).1.mpr fits).computesExactly.kernels slotElems rank channel
    elemOffset rank_lt channel_lt
  cases call with
  | allReduce => exact same.trans (Words.ringSimpleKernelAt_exact _ _ _ _ _)
  | reduceScatter => exact same.trans (Words.blocksKernelAt_exact _ _ _ _ _ _)
  | allGather => exact same.trans (Words.blocksKernelAt_exact _ _ _ _ _ _)

/-- The default build. -/
def defaultBuild : Words.Build where
  kRanks := 4
  kChannels := 4
  fifoBytes := kFifoBytes
  ranks_pos := by decide
  ranks_lt := by decide
  channels_pos := by decide
  channels_lt := by decide
  fifoBytes_le := by decide

/-- Four ranks in one process, over shared memory. -/
def singleProcess : Words.FifoSetup := ⟨false, fun _ => .shm, fun _ => true⟩

theorem noOverflow_iff_default :
    NoOverflow defaultBuild singleProcess (.allReduce ⟨4096, 8192, 1⟩ 1024 .float .sum) := by
  have accepted : validateArgs defaultBuild.kRanks (.allReduce ⟨4096, 8192, 1⟩ 1024 .float .sum) =
      .ok () := by
    decide
  refine (noOverflow_iff accepted).1.mpr ⟨by decide, fun _ _ => ?_⟩
  decide

/-- An all-gather of half-precision elements whose buffers nearly fill the address space. -/
def hugeGather : Call :=
  .allGather ⟨0x1000, 0x3800000000000000, 1⟩ 0x1800000000000000 .float16

/-- The default build accepts it, and the third channel boundary wraps around. -/
theorem hugeGather_overflows :
    validateArgs 4 hugeGather = .ok () ∧
      Words.cbdPart (checked sizeMax) 4 4 .float16 (hugeGather.fifoCount 4) 2 = none ∧
      (Words.cbdPart (wrapping (2 ^ 64)) 4 4 .float16 (hugeGather.fifoCount 4) 2).map
          (fun part => part.partCount) ≠
        (Words.cbdPart exact 4 4 .float16 (hugeGather.fifoCount 4) 2).map
          (fun part => part.partCount) := by
  decide

end Communicator
end NanoNccl
