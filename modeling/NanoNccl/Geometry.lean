import Mathlib.Data.Nat.Basic

/-!
# Simple protocol constants and the partition of a collective

The constants of the Simple protocol and the element arithmetic shared by the three kernels: the
split of a buffer over channels, of a channel over loops and ring chunks, and of a chunk over
slices. Sizes are exact naturals. A buffer of `count` elements lies in the address space, but the
product `count * channel` of a channel boundary need not fit 64 bits; `Communicator.Overflow` says
for which calls all products do and that the words of the source are these numbers then.
-/

namespace NanoNccl

/-- Element types of a collective. -/
inductive DType
  | float
  | float16
  | bfloat16
  deriving DecidableEq, Repr

/-- `sizeof(T)` of the storage type. -/
def DType.size : DType → ℕ
  | .float => 4
  | .float16 => 2
  | .bfloat16 => 2

theorem DType.size_pos (dtype : DType) : 0 < dtype.size := by
  cases dtype <;> decide

/-- Reduction operations. -/
inductive RedOp
  | sum
  | avg
  | max
  | min
  deriving DecidableEq, Repr

/-- Steps in one FIFO. -/
def kFifoSteps : ℕ := 8

/-- Steps one slice advances the counters by. -/
def kSliceSteps : ℕ := 2

/-- Steps of one chunk. -/
def kChunkSteps : ℕ := 4

/-- Bytes moved by one vector access. -/
def kVectorBytes : ℕ := 16

/-- Default byte size of one FIFO. -/
def kFifoBytes : ℕ := 33554432

/-- Largest slice whose receive credit is published before the local reduction. -/
def kEarlyRecvCreditMaxBytes : ℕ := 4096

/-- Elements of one FIFO step. -/
def stepElems (fifoBytes : ℕ) (dtype : DType) : ℕ :=
  fifoBytes / kFifoSteps / dtype.size

def divUp (value divisor : ℕ) : ℕ :=
  (value + divisor - 1) / divisor

def alignUp (value alignment : ℕ) : ℕ :=
  divUp value alignment * alignment

/-- Elements of one slice of a chunk of `count` elements. -/
def sliceElems (dtype : DType) (count nominalStepElems : ℕ) : ℕ :=
  let vectorElems := kVectorBytes / dtype.size
  let byCount := divUp count (vectorElems * kChunkSteps / kSliceSteps) * vectorElems
  let byStep := nominalStepElems * kSliceSteps / 32
  if byCount > byStep then byCount else byStep

def simpleGrainElems (dtype : DType) : ℕ :=
  512 / dtype.size

/-- One channel's share of a buffer. -/
structure ChannelPart where
  /-- First element of the share. -/
  partOffset : ℕ
  /-- Number of elements in the share. -/
  partCount : ℕ
  deriving DecidableEq, Repr

/-- One channel's share of an AllReduce, with the ring chunk it is worked on in. -/
structure CbdPart extends ChannelPart where
  /-- Elements of one ring chunk. -/
  chunkCount : ℕ
  deriving DecidableEq, Repr

/-- AllReduce channel split: internal boundaries are rounded down to the vector width. -/
def cbdPart (kRanks kChannels : ℕ) (dtype : DType) (count channel : ℕ) : CbdPart :=
  let begin₀ := count * channel / kChannels
  let stop₀ := count * (channel + 1) / kChannels
  let vectorElems := kVectorBytes / dtype.size
  let begin := begin₀ / vectorElems * vectorElems
  let stop := if channel + 1 ≠ kChannels then stop₀ / vectorElems * vectorElems else stop₀
  let partCount := stop - begin
  { partOffset := begin
    partCount := partCount
    chunkCount :=
      if partCount = 0 then 0 else alignUp (divUp partCount kRanks) (simpleGrainElems dtype) }

/-- ReduceScatter and AllGather channel split. -/
def channelPart (kChannels count channel : ℕ) : ChannelPart :=
  let begin := count * channel / kChannels
  let stop := count * (channel + 1) / kChannels
  { partOffset := begin, partCount := stop - begin }

def loopChunkElems (chunkElems slotElems : ℕ) : ℕ :=
  if chunkElems < slotElems then chunkElems else slotElems

/-- Elements a chunk starting at `chunkOffset` holds when `remCount` elements remain. -/
def nelem (chunkCount remCount chunkOffset : ℕ) : ℕ :=
  if chunkOffset ≥ remCount then 0
  else
    let rem := remCount - chunkOffset
    if rem < chunkCount then rem else chunkCount

end NanoNccl
