import NanoNccl.Geometry
import Mathlib.Data.List.Basic

/-!
# Schedules of the ring kernels

The control flow of a kernel block reads only its arguments, never data or counters, so a block
is the list of slice operations it issues. Each primitive cuts its chunk into slices and skips
the empty ones; each kernel loops over its channel share and calls the primitives along the
ring.
-/

namespace NanoNccl

/-- The device primitives, and the plain local copy of AllGather. -/
inductive Prim
  | directSend
  | recvReduceSend
  | recvReduceCopySend
  | recvReduceCopy
  | recvCopySend
  | directRecv
  | copyWorker
  deriving DecidableEq, Repr

namespace Prim

/-- The primitive waits for `recv_tail` and consumes a slice of the receive FIFO. -/
def recvs : Prim → Bool
  | recvReduceSend | recvReduceCopySend | recvReduceCopy | recvCopySend | directRecv => true
  | directSend | copyWorker => false

/-- The primitive waits for `send_head` and produces a slice of the send FIFO. -/
def sends : Prim → Bool
  | directSend | recvReduceSend | recvReduceCopySend | recvCopySend => true
  | recvReduceCopy | directRecv | copyWorker => false

/-- The primitive reduces the received slice with local input. -/
def reduces : Prim → Bool
  | recvReduceSend | recvReduceCopySend | recvReduceCopy => true
  | directSend | recvCopySend | directRecv | copyWorker => false

/-- The primitive writes the output buffer. -/
def stores : Prim → Bool
  | recvReduceCopySend | recvReduceCopy | recvCopySend | directRecv | copyWorker => true
  | directSend | recvReduceSend => false

/-- The primitive reads the input buffer. -/
def loads : Prim → Bool
  | directSend | recvReduceSend | recvReduceCopySend | recvReduceCopy | copyWorker => true
  | recvCopySend | directRecv => false

end Prim

/-- One slice of work of a primitive. -/
structure SliceOp where
  /-- Primitive the slice belongs to. -/
  prim : Prim
  /-- First input element, `local + slice_offset`. -/
  src : ℕ
  /-- First output element, `out + slice_offset`. -/
  dst : ℕ
  /-- Elements in the slice. -/
  work : ℕ
  deriving DecidableEq, Repr

/-- The slice loop of every primitive: offsets and sizes of the slices that are not empty. -/
def sliceLoop (sliceSize count : ℕ) : ℕ → ℕ → List (ℕ × ℕ)
  | 0, _ => []
  | slices + 1, sliceOffset =>
      let work := if sliceOffset < count then nelem sliceSize count sliceOffset else 0
      if work = 0 then sliceLoop sliceSize count slices (sliceOffset + sliceSize)
      else (sliceOffset, work) :: sliceLoop sliceSize count slices (sliceOffset + sliceSize)

/-- Slices of a chunk of `count` elements. -/
def slices (dtype : DType) (nominalStepElems count : ℕ) : List (ℕ × ℕ) :=
  sliceLoop (sliceElems dtype count nominalStepElems) count (kChunkSteps / kSliceSteps) 0

/-- What a kernel block reads of its launch arguments to lay out its work. -/
structure FifoArgs where
  /-- Global rank. -/
  rank : ℕ
  /-- Element count of the collective. -/
  count : ℕ
  /-- Elements between two FIFO slots. -/
  slotElems : ℕ
  /-- Nominal elements of a step. -/
  stepElems : ℕ
  deriving DecidableEq, Repr

section Primitives

variable (dtype : DType) (args : FifoArgs)

/-- The common body of the primitives: one slice operation for every slice that is not empty. -/
def sliced (prim : Prim) (src dst count : ℕ) : List SliceOp :=
  (slices dtype args.stepElems count).map fun (offset, work) =>
    { prim, src := src + offset, dst := dst + offset, work }

def directSend (src count : ℕ) : List SliceOp :=
  sliced dtype args .directSend src 0 count

def recvReduceSend (src count : ℕ) : List SliceOp :=
  sliced dtype args .recvReduceSend src 0 count

def recvReduceCopySend (src dst count : ℕ) : List SliceOp :=
  sliced dtype args .recvReduceCopySend src dst count

def recvReduceCopy (src dst count : ℕ) : List SliceOp :=
  sliced dtype args .recvReduceCopy src dst count

def recvCopySend (dst count : ℕ) : List SliceOp :=
  sliced dtype args .recvCopySend 0 dst count

def directRecv (dst count : ℕ) : List SliceOp :=
  sliced dtype args .directRecv 0 dst count

/-- `copy_worker` called by AllGather outside any primitive. -/
def copyWorker (src dst count : ℕ) : List SliceOp :=
  [{ prim := .copyWorker, src, dst, work := count }]

end Primitives

/-- Values of `elem_offset` in `for (elem_offset = 0; elem_offset < bound;)` when each pass adds
`advance elem_offset`; no value is returned when `fuel` passes do not leave the loop. -/
def elemOffsets (bound : ℕ) (advance : ℕ → ℕ) : ℕ → ℕ → Option (List ℕ)
  | fuel, elemOffset =>
      if elemOffset < bound then
        match fuel with
        | 0 => none
        | fuel + 1 =>
            (elemOffsets bound advance fuel (elemOffset + advance elemOffset)).map
              (elemOffset :: ·)
      else some []

section Kernels

variable (nranks kChannels : ℕ) (dtype : DType) (args : FifoArgs) (channel : ℕ)

/-- Ring chunk size of the AllReduce pass with `remCount` elements left. -/
def loopChunk (part : CbdPart) (remCount : ℕ) : ℕ :=
  let chunk := loopChunkElems part.chunkCount args.slotElems
  if remCount < nranks * chunk then
    alignUp (divUp remCount nranks) (kVectorBytes / dtype.size)
  else chunk

/-- One pass of the AllReduce loop at `elem_offset`. -/
def ringSimplePass (part : CbdPart) (elemOffset : ℕ) : List SliceOp :=
  let remCount := part.partCount - elemOffset
  let loopChunk := loopChunk nranks dtype args part remCount
  let offset := fun chunk => part.partOffset + elemOffset + chunk * loopChunk
  let work := fun chunk => nelem loopChunk remCount (chunk * loopChunk)
  let ringIx := args.rank
  directSend dtype args (offset ((ringIx + nranks - 1) % nranks))
      (work ((ringIx + nranks - 1) % nranks)) ++
    ((List.range' 2 (nranks - 2)).flatMap fun j =>
      let chunk := (ringIx + nranks - j) % nranks
      recvReduceSend dtype args (offset chunk) (work chunk)) ++
    recvReduceCopySend dtype args (offset ringIx) (offset ringIx) (work ringIx) ++
    ((List.range' 1 (nranks - 2)).flatMap fun j =>
      let chunk := (ringIx + nranks - j) % nranks
      recvCopySend dtype args (offset chunk) (work chunk)) ++
    directRecv dtype args (offset ((ringIx + 1) % nranks)) (work ((ringIx + 1) % nranks))

/-- `ring_simple_kernel`: the slice operations of one channel block, or nothing to do when the
share is empty. The loop advances at least one element a pass, so `count` passes are enough. -/
def ringSimpleKernel : Option (List SliceOp) :=
  let part := cbdPart nranks kChannels dtype args.count channel
  if part.partCount = 0 ∨ part.chunkCount = 0 then some []
  else
    (elemOffsets part.partCount
      (fun elemOffset => nranks * loopChunk nranks dtype args part (part.partCount - elemOffset))
      args.count 0).map fun offsets =>
        offsets.flatMap (ringSimplePass nranks dtype args part)

/-- Elements of a slot-sized pass of ReduceScatter and AllGather. -/
def passWork (part : ChannelPart) (elemOffset : ℕ) : ℕ :=
  let remaining := part.partCount - elemOffset
  if remaining < args.slotElems then remaining else args.slotElems

/-- One pass of the AllGather loop at `elem_offset`. -/
def ringSimpleAllGatherPass (part : ChannelPart) (elemOffset : ℕ) : List SliceOp :=
  let work := passWork args part elemOffset
  let inputOffset := part.partOffset + elemOffset
  let output := fun sourceRank => sourceRank * args.count + inputOffset
  copyWorker inputOffset (output args.rank) work ++
    directSend dtype args inputOffset work ++
    ((List.range' 1 (nranks - 2)).flatMap fun step =>
      recvCopySend dtype args (output ((args.rank + nranks - step) % nranks)) work) ++
    directRecv dtype args (output ((args.rank + 1) % nranks)) work

/-- `ring_simple_all_gather_kernel`. -/
def ringSimpleAllGatherKernel : Option (List SliceOp) :=
  let part := channelPart kChannels args.count channel
  if part.partCount = 0 then some []
  else
    (elemOffsets part.partCount (passWork args part) args.count 0).map fun offsets =>
      offsets.flatMap (ringSimpleAllGatherPass nranks dtype args part)

/-- One pass of the ReduceScatter loop at `elem_offset`. -/
def ringSimpleReduceScatterPass (part : ChannelPart) (elemOffset : ℕ) : List SliceOp :=
  let work := passWork args part elemOffset
  let rankPartOffset := part.partOffset + elemOffset
  let input := fun chunk => chunk * args.count + rankPartOffset
  directSend dtype args (input ((args.rank + nranks - 1) % nranks)) work ++
    ((List.range' 2 (nranks - 2)).flatMap fun step =>
      recvReduceSend dtype args (input ((args.rank + nranks - step) % nranks)) work) ++
    recvReduceCopy dtype args (input args.rank) rankPartOffset work

/-- `ring_simple_reduce_scatter_kernel`. -/
def ringSimpleReduceScatterKernel : Option (List SliceOp) :=
  let part := channelPart kChannels args.count channel
  if part.partCount = 0 then some []
  else
    (elemOffsets part.partCount (passWork args part) args.count 0).map fun offsets =>
      offsets.flatMap (ringSimpleReduceScatterPass nranks dtype args part)

end Kernels

end NanoNccl
