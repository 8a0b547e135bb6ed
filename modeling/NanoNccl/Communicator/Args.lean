import Mathlib.Algebra.Ring.Nat
import NanoNccl.Geometry

/-!
# Arguments of a collective call

The descriptors of the three collectives and the checks `validate_args` makes on them. Addresses
and counts are naturals of the 64-bit machine: a checked product or address range that would leave
it is rejected before it is formed.
-/

namespace NanoNccl
namespace Communicator

/-- Largest `size_t`, and largest address. -/
def sizeMax : ℕ := 2 ^ 64 - 1

/-- The fields all descriptors share; address 0 is the null pointer. -/
structure BufferArgs where
  /-- `send_buffer` -/
  sendBuffer : ℕ
  /-- `recv_buffer` -/
  recvBuffer : ℕ
  /-- `stream` -/
  stream : ℕ
  deriving DecidableEq, Repr

/-- One collective call with its descriptor. -/
inductive Call where
  /-- `all_reduce` of `count` elements. -/
  | allReduce (buffers : BufferArgs) (count : ℕ) (dtype : DType) (redop : RedOp)
  /-- `reduce_scatter` to `recv_count` elements on each rank. -/
  | reduceScatter (buffers : BufferArgs) (recvCount : ℕ) (dtype : DType) (redop : RedOp)
  /-- `all_gather` of `send_count` elements from each rank. -/
  | allGather (buffers : BufferArgs) (sendCount : ℕ) (dtype : DType)
  deriving DecidableEq, Repr

/-- The element type of a call. -/
def Call.dtype : Call → DType
  | .allReduce _ _ dtype _ | .reduceScatter _ _ dtype _ | .allGather _ _ dtype => dtype

/-- The buffers and the stream of a call. -/
def Call.buffers : Call → BufferArgs
  | .allReduce buffers _ _ _ | .reduceScatter buffers _ _ _ | .allGather buffers _ _ => buffers

/-- A product of sizes, or the given error when it does not fit. -/
def checkedMultiply (lhs rhs : ℕ) (message : String) : Except String ℕ :=
  if lhs > sizeMax / rhs then .error message else .ok (lhs * rhs)

/-- First address and end of a buffer of `bytes` bytes. -/
def addressRange (pointer bytes : ℕ) : Except String (ℕ × ℕ) :=
  if bytes > sizeMax - pointer then .error "collective buffer address range overflows"
  else .ok (pointer, pointer + bytes)

/-- The checks of both buffers against their element counts. -/
def validateBufferArgs (args : BufferArgs) (sendCount recvCount : ℕ) (dtype : DType)
    (collectiveName : String) : Except String Unit := do
  if sendCount = 0 ∨ recvCount = 0 then throw "collective count must be positive"
  if args.sendBuffer = 0 ∨ args.recvBuffer = 0 ∨ args.stream = 0 then
    throw "collective buffers and stream must be non-null"
  let sendBytes ← checkedMultiply sendCount dtype.size "collective send byte count overflows"
  let recvBytes ← checkedMultiply recvCount dtype.size "collective receive byte count overflows"
  let send ← addressRange args.sendBuffer sendBytes
  let recv ← addressRange args.recvBuffer recvBytes
  if send.1 < recv.2 ∧ recv.1 < send.2 then
    throw ("overlapping " ++ collectiveName ++ " send and receive buffers are unsupported")

/-- `validate_args` of the three descriptors; every `RedOp` passes `validate_redop`. -/
def validateArgs (kRanks : ℕ) : Call → Except String Unit
  | .allReduce buffers count dtype _ => validateBufferArgs buffers count count dtype "all_reduce"
  | .reduceScatter buffers recvCount dtype _ => do
      let sendCount ← checkedMultiply recvCount kRanks "reduce_scatter element count overflows"
      validateBufferArgs buffers sendCount recvCount dtype "reduce_scatter"
  | .allGather buffers sendCount dtype => do
      let recvCount ← checkedMultiply sendCount kRanks "all_gather element count overflows"
      validateBufferArgs buffers sendCount recvCount dtype "all_gather"

/-! ### Accepted arguments -/

section Accepted

variable {ε : Type*} {α β : Type}

/-- A chain of checks passes when each of them does. -/
theorem bind_ok_iff {first : Except ε α} {next : α → Except ε β} {result : β} :
    (first >>= next) = .ok result ↔ ∃ value, first = .ok value ∧ next value = .ok result := by
  cases first <;> simp [bind, Except.bind]

/-- A check that refuses ends the chain. -/
theorem ite_throw_ok_iff {refused : Prop} [Decidable refused] {error : ε} {skipped : α → Except ε β}
    {next : Except ε β} {result : β} :
    (if refused then throw error >>= skipped else next) = .ok result ↔
      ¬refused ∧ next = .ok result := by
  split_ifs with here <;> simp [here, bind_ok_iff]

theorem ite_throw_pure_ok_iff {refused : Prop} [Decidable refused] {error : ε} :
    (if refused then throw error else pure () : Except ε Unit) = .ok () ↔ ¬refused := by
  split_ifs with here <;> simp [here, pure, Except.pure]

end Accepted

theorem checkedMultiply_ok_iff {lhs rhs product : ℕ} (positive : 0 < rhs) {message : String} :
    checkedMultiply lhs rhs message = .ok product ↔ lhs * rhs ≤ sizeMax ∧ lhs * rhs = product := by
  have guard : lhs > sizeMax / rhs ↔ ¬lhs * rhs ≤ sizeMax := by
    rw [gt_iff_lt, Nat.div_lt_iff_lt_mul positive, not_le]
  unfold checkedMultiply
  split_ifs with refused
  · simp [guard.mp refused]
  · simp [not_not.mp (mt guard.mpr refused)]

theorem addressRange_ok_iff {pointer bytes : ℕ} {range : ℕ × ℕ} (positive : 0 < bytes) :
    addressRange pointer bytes = .ok range ↔
      pointer + bytes ≤ sizeMax ∧ (pointer, pointer + bytes) = range := by
  unfold addressRange
  split_ifs with refused
  · have outside : ¬pointer + bytes ≤ sizeMax := by omega
    simp [outside]
  · have inside : pointer + bytes ≤ sizeMax := by omega
    simp [inside]

/-- Two ranges do not overlap. -/
theorem not_overlapping_iff {send recv sendBytes recvBytes : ℕ} :
    ¬(send < recv + recvBytes ∧ recv < send + sendBytes) ↔
      send + sendBytes ≤ recv ∨ recv + recvBytes ≤ send := by
  omega

/-- Buffers for so many elements, in exact integers: both lie in the address space, apart. -/
structure ValidBuffers (args : BufferArgs) (sendCount recvCount : ℕ) (dtype : DType) : Prop where
  sendBuffer_ne : args.sendBuffer ≠ 0
  recvBuffer_ne : args.recvBuffer ≠ 0
  stream_ne : args.stream ≠ 0
  sendCount_pos : 0 < sendCount
  recvCount_pos : 0 < recvCount
  sendBytes_le : sendCount * dtype.size ≤ sizeMax
  recvBytes_le : recvCount * dtype.size ≤ sizeMax
  sendEnd_le : args.sendBuffer + sendCount * dtype.size ≤ sizeMax
  recvEnd_le : args.recvBuffer + recvCount * dtype.size ≤ sizeMax
  disjoint : args.sendBuffer + sendCount * dtype.size ≤ args.recvBuffer ∨
    args.recvBuffer + recvCount * dtype.size ≤ args.sendBuffer

theorem validateBufferArgs_ok_iff {args : BufferArgs} {sendCount recvCount : ℕ} {dtype : DType}
    {collectiveName : String} :
    validateBufferArgs args sendCount recvCount dtype collectiveName = .ok () ↔
      ValidBuffers args sendCount recvCount dtype := by
  have size_pos := dtype.size_pos
  unfold validateBufferArgs
  by_cases empty : sendCount = 0 ∨ recvCount = 0
  · refine iff_of_false ?_ fun valid => ?_
    · simp [empty, bind, Except.bind]
    · have := valid.sendCount_pos
      have := valid.recvCount_pos
      omega
  have sendBytes_pos : 0 < sendCount * dtype.size := Nat.mul_pos (by omega) size_pos
  have recvBytes_pos : 0 < recvCount * dtype.size := Nat.mul_pos (by omega) size_pos
  simp only [ite_throw_ok_iff, ite_throw_pure_ok_iff, bind_ok_iff, checkedMultiply_ok_iff size_pos]
  constructor
  · rintro ⟨-, null, sendBytes, ⟨sendBytes_le, rfl⟩, recvBytes, ⟨recvBytes_le, rfl⟩, send,
      sendRange, recv, recvRange, apart⟩
    obtain ⟨sendEnd_le, rfl⟩ := (addressRange_ok_iff sendBytes_pos).mp sendRange
    obtain ⟨recvEnd_le, rfl⟩ := (addressRange_ok_iff recvBytes_pos).mp recvRange
    simp only [not_or] at null
    exact ⟨null.1, null.2.1, null.2.2, by omega, by omega, sendBytes_le, recvBytes_le, sendEnd_le,
      recvEnd_le, not_overlapping_iff.mp apart⟩
  · intro valid
    refine ⟨empty, ?_, _, ⟨valid.sendBytes_le, rfl⟩, _, ⟨valid.recvBytes_le, rfl⟩, _,
      (addressRange_ok_iff sendBytes_pos).mpr ⟨valid.sendEnd_le, rfl⟩, _,
      (addressRange_ok_iff recvBytes_pos).mpr ⟨valid.recvEnd_le, rfl⟩,
      not_overlapping_iff.mpr valid.disjoint⟩
    simp [valid.sendBuffer_ne, valid.recvBuffer_ne, valid.stream_ne]

/-- Elements of the send buffer. -/
def Call.sendCount (kRanks : ℕ) : Call → ℕ
  | .allReduce _ count _ _ | .allGather _ count _ => count
  | .reduceScatter _ recvCount _ _ => recvCount * kRanks

/-- Elements of the receive buffer. -/
def Call.recvCount (kRanks : ℕ) : Call → ℕ
  | .allReduce _ count _ _ | .reduceScatter _ count _ _ => count
  | .allGather _ sendCount _ => sendCount * kRanks

theorem count_le_of_bytes_le {count bound : ℕ} {dtype : DType}
    (bytes_le : count * dtype.size ≤ bound) : count ≤ bound :=
  le_trans (Nat.le_mul_of_pos_right count dtype.size_pos) bytes_le

/-- `validate_args` accepts exactly the calls whose buffers are disjoint ranges of the address
space. -/
theorem validateArgs_ok_iff {kRanks : ℕ} (ranks : 0 < kRanks) {call : Call} :
    validateArgs kRanks call = .ok () ↔
      ValidBuffers call.buffers (call.sendCount kRanks) (call.recvCount kRanks) call.dtype := by
  cases call with
  | allReduce buffers count dtype redop => exact validateBufferArgs_ok_iff
  | reduceScatter buffers recvCount dtype redop =>
      simp only [validateArgs, bind_ok_iff, checkedMultiply_ok_iff ranks, validateBufferArgs_ok_iff]
      constructor
      · rintro ⟨_, ⟨-, rfl⟩, valid⟩
        exact valid
      · exact fun valid => ⟨_, ⟨count_le_of_bytes_le valid.sendBytes_le, rfl⟩, valid⟩
  | allGather buffers sendCount dtype =>
      simp only [validateArgs, bind_ok_iff, checkedMultiply_ok_iff ranks, validateBufferArgs_ok_iff]
      constructor
      · rintro ⟨_, ⟨-, rfl⟩, valid⟩
        exact valid
      · exact fun valid => ⟨_, ⟨count_le_of_bytes_le valid.recvBytes_le, rfl⟩, valid⟩

end Communicator
end NanoNccl
