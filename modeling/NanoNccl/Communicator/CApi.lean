import Mathlib.Data.Nat.Basic
import NanoNccl.Communicator.Args

/-!
# Argument checks of the C interface and of the communicator

Two validators stand in front of a collective. The C entry points check their descriptors first and
return a status; `Communicator::Impl::validate_args` checks the converted descriptors again and
throws. Both work on 64-bit words whose sums and products wrap around. They accept the same
descriptors, and exactly those whose buffers are two disjoint ranges of the address space.
-/

namespace NanoNccl
namespace Communicator

/-- `std::numeric_limits<std::size_t>::max()` -/
def wordMax : UInt64 := 0xFFFFFFFFFFFFFFFF

@[simp] theorem toNat_wordMax : wordMax.toNat = sizeMax := rfl

/-- The fields of the C descriptors; `count` is `recv_count` or `send_count` where the descriptor
calls it so, and the AllGather descriptor has no `redop`. -/
structure CArgs where
  /-- `send_buffer` -/
  sendBuffer : UInt64
  /-- `recv_buffer` -/
  recvBuffer : UInt64
  /-- `stream` -/
  stream : UInt64
  count : UInt64
  /-- `nano_nccl_dtype_t` -/
  dtype : Int32
  /-- `nano_nccl_redop_t` -/
  redop : Int32
  deriving DecidableEq

/-- `to_cpp_dtype` -/
def toCppDtype (value : Int32) : Option DType :=
  if value = 0 then some .float
  else if value = 1 then some .float16
  else if value = 2 then some .bfloat16
  else none

/-- `to_cpp_redop` -/
def toCppRedop (value : Int32) : Option RedOp :=
  if value = 0 then some .sum
  else if value = 1 then some .avg
  else if value = 2 then some .max
  else if value = 3 then some .min
  else none

/-! ### The C entry points -/

namespace CApi

/-- `checked_multiply`, with the product where it returns true. -/
def checkedMultiply (lhs rhs : UInt64) : Option UInt64 :=
  if lhs > wordMax / rhs then none else some (lhs * rhs)

/-- `dtype_size` -/
def dtypeSize (dtype : Int32) : UInt64 := if dtype = 0 then 4 else 2

/-- `validate_buffer_args` -/
def validateBufferArgs (sendBuffer recvBuffer stream count : UInt64) : Except String Unit :=
  if sendBuffer = 0 ∨ recvBuffer = 0 ∨ stream = 0 then
    .error "collective buffers and stream must be non-null"
  else if count = 0 then .error "collective count must be positive"
  else if sendBuffer = recvBuffer then .error "in-place collectives are unsupported"
  else .ok ()

/-- `validate_buffer_overlap` -/
def validateBufferOverlap (sendBuffer recvBuffer sendCount recvCount : UInt64) (dtype : Int32) :
    Except String Unit :=
  match checkedMultiply sendCount (dtypeSize dtype),
    checkedMultiply recvCount (dtypeSize dtype) with
  | some sendBytes, some recvBytes =>
      if sendBytes > wordMax - sendBuffer then .error "collective send address range overflows"
      else if recvBytes > wordMax - recvBuffer then
        .error "collective receive address range overflows"
      else if sendBuffer < recvBuffer + recvBytes ∧ recvBuffer < sendBuffer + sendBytes then
        .error "overlapping send and receive buffers are unsupported"
      else .ok ()
  | _, _ => .error "collective byte count overflows"

/-- Test of the reduction code, the last one where there is one. -/
def validateRedop (redop : Int32) : Except String Unit :=
  match toCppRedop redop with
  | none => .error "unsupported reduction operation value"
  | some _ => .ok ()

/-- The checks of `nano_nccl_all_reduce` on a non-null descriptor. -/
def nanoNcclAllReduce (args : CArgs) : Except String Unit := do
  validateBufferArgs args.sendBuffer args.recvBuffer args.stream args.count
  if toCppDtype args.dtype = none then throw "unsupported dtype value"
  validateBufferOverlap args.sendBuffer args.recvBuffer args.count args.count args.dtype
  validateRedop args.redop

/-- The checks of `nano_nccl_reduce_scatter` on a non-null descriptor. -/
def nanoNcclReduceScatter (globalRankCount : UInt64) (args : CArgs) : Except String Unit := do
  validateBufferArgs args.sendBuffer args.recvBuffer args.stream args.count
  if toCppDtype args.dtype = none then throw "unsupported dtype value"
  match checkedMultiply args.count globalRankCount with
  | none => throw "reduce_scatter element count overflows"
  | some sendCount =>
      validateBufferOverlap args.sendBuffer args.recvBuffer sendCount args.count args.dtype
      validateRedop args.redop

/-- The checks of `nano_nccl_all_gather` on a non-null descriptor. -/
def nanoNcclAllGather (globalRankCount : UInt64) (args : CArgs) : Except String Unit := do
  validateBufferArgs args.sendBuffer args.recvBuffer args.stream args.count
  if toCppDtype args.dtype = none then throw "unsupported dtype value"
  match checkedMultiply args.count globalRankCount with
  | none => throw "all_gather element count overflows"
  | some recvCount =>
      validateBufferOverlap args.sendBuffer args.recvBuffer args.count recvCount args.dtype

end CApi

/-! ### The checks of the communicator -/

/-- The C++ descriptors. An object of an enumeration type may hold a value that is none of the
enumerators, written `none` here. -/
structure CppArgs where
  /-- `send_buffer` -/
  sendBuffer : UInt64
  /-- `recv_buffer` -/
  recvBuffer : UInt64
  /-- `stream` -/
  stream : UInt64
  count : UInt64
  dtype : Option DType
  redop : Option RedOp
  deriving DecidableEq

/-- The converted arguments. -/
def CArgs.toCpp (args : CArgs) : CppArgs where
  sendBuffer := args.sendBuffer
  recvBuffer := args.recvBuffer
  stream := args.stream
  count := args.count
  dtype := toCppDtype args.dtype
  redop := toCppRedop args.redop

namespace Impl

/-- `dtype_size` -/
def dtypeSize : Option DType → Except String UInt64
  | some .float => .ok 4
  | some .float16 | some .bfloat16 => .ok 2
  | none => .error "unsupported dtype"

/-- `checked_multiply` -/
def checkedMultiply (lhs rhs : UInt64) (message : String) : Except String UInt64 :=
  if lhs > wordMax / rhs then .error message else .ok (lhs * rhs)

/-- `address_range` -/
def addressRange (pointer bytes : UInt64) : Except String (UInt64 × UInt64) :=
  if bytes > wordMax - pointer then .error "collective buffer address range overflows"
  else .ok (pointer, pointer + bytes)

/-- `validate_buffer_args` -/
def validateBufferArgs (args : CppArgs) (sendCount recvCount : UInt64) (collectiveName : String) :
    Except String Unit := do
  if sendCount = 0 ∨ recvCount = 0 then throw "collective count must be positive"
  if args.sendBuffer = 0 ∨ args.recvBuffer = 0 ∨ args.stream = 0 then
    throw "collective buffers and stream must be non-null"
  let elementSize ← dtypeSize args.dtype
  let sendBytes ← checkedMultiply sendCount elementSize "collective send byte count overflows"
  let recvBytes ← checkedMultiply recvCount elementSize "collective receive byte count overflows"
  let send ← addressRange args.sendBuffer sendBytes
  let recv ← addressRange args.recvBuffer recvBytes
  if send.1 < recv.2 ∧ recv.1 < send.2 then
    throw ("overlapping " ++ collectiveName ++ " send and receive buffers are unsupported")

/-- `validate_redop` -/
def validateRedop : Option RedOp → Except String Unit
  | some .sum | some .avg | some .max | some .min => .ok ()
  | none => .error "unsupported reduction operation"

/-- `validate_args` of `AllReduceArgs`. -/
def validateAllReduceArgs (args : CppArgs) : Except String Unit := do
  validateBufferArgs args args.count args.count "all_reduce"
  validateRedop args.redop

/-- `validate_args` of `ReduceScatterArgs`. -/
def validateReduceScatterArgs (kRanks : UInt64) (args : CppArgs) : Except String Unit := do
  let sendCount ← checkedMultiply args.count kRanks "reduce_scatter element count overflows"
  validateBufferArgs args sendCount args.count "reduce_scatter"
  validateRedop args.redop

/-- `validate_args` of `AllGatherArgs`. -/
def validateAllGatherArgs (kRanks : UInt64) (args : CppArgs) : Except String Unit := do
  let recvCount ← checkedMultiply args.count kRanks "all_gather element count overflows"
  validateBufferArgs args args.count recvCount "all_gather"

end Impl

/-! ### Exact arithmetic -/

/-- The guard of `checked_multiply` finds exactly the products that wrap around. -/
theorem gt_wordMax_div_iff {lhs rhs : UInt64} (positive : 0 < rhs) :
    lhs > wordMax / rhs ↔ sizeMax < lhs.toNat * rhs.toNat := by
  have divisor : 0 < rhs.toNat := UInt64.lt_iff_toNat_lt.mp positive
  rw [gt_iff_lt, UInt64.lt_iff_toNat_lt, UInt64.toNat_div, toNat_wordMax,
    Nat.div_lt_iff_lt_mul divisor]

theorem toNat_mul_of_le {lhs rhs : UInt64} (fits : lhs.toNat * rhs.toNat ≤ sizeMax) :
    (lhs * rhs).toNat = lhs.toNat * rhs.toNat := by
  rw [UInt64.toNat_mul, Nat.mod_eq_of_lt (Nat.lt_of_le_of_lt fits (by decide))]

/-- The guard of `address_range` finds exactly the ranges that wrap around. -/
theorem gt_wordMax_sub_iff {pointer bytes : UInt64} :
    bytes > wordMax - pointer ↔ sizeMax < pointer.toNat + bytes.toNat := by
  have below : pointer ≤ wordMax := UInt64.le_iff_toNat_le.mpr (by
    have := pointer.toNat_lt
    rw [toNat_wordMax, sizeMax]
    omega)
  have pointer_le : pointer.toNat ≤ sizeMax := UInt64.le_iff_toNat_le.mp below
  rw [gt_iff_lt, UInt64.lt_iff_toNat_lt, UInt64.toNat_sub_of_le _ _ below, toNat_wordMax]
  omega

theorem toNat_add_of_le {pointer bytes : UInt64} (fits : pointer.toNat + bytes.toNat ≤ sizeMax) :
    (pointer + bytes).toNat = pointer.toNat + bytes.toNat := by
  rw [UInt64.toNat_add, Nat.mod_eq_of_lt (Nat.lt_of_le_of_lt fits (by decide))]

/-! ### The communicator on natural numbers -/

/-- The buffers as natural numbers. -/
def CppArgs.buffers (args : CppArgs) : BufferArgs :=
  ⟨args.sendBuffer.toNat, args.recvBuffer.toNat, args.stream.toNat⟩

theorem toNat_eq_zero_iff {word : UInt64} : word.toNat = 0 ↔ word = 0 :=
  ⟨fun zero => UInt64.toNat_inj.mp zero, fun zero => by simp [zero]⟩

namespace Impl

theorem map_bind_eq {ε α β γ : Type} (first : Except ε α) (change : α → β) (next : β → Except ε γ) :
    (first.map change >>= next) = first >>= fun value => next (change value) := by
  cases first <;> rfl

theorem ok_bind_eq {ε α β : Type} (value : α) (next : α → Except ε β) :
    ((.ok value : Except ε α) >>= next) = next value := rfl

theorem checkedMultiply_map {lhs rhs : UInt64} (positive : 0 < rhs) (message : String) :
    (checkedMultiply lhs rhs message).map UInt64.toNat =
      Communicator.checkedMultiply lhs.toNat rhs.toNat message := by
  have divisor : 0 < rhs.toNat := UInt64.lt_iff_toNat_lt.mp positive
  unfold checkedMultiply Communicator.checkedMultiply
  by_cases refused : lhs > wordMax / rhs
  · have refused' : lhs.toNat > sizeMax / rhs.toNat := by
      rw [gt_iff_lt, Nat.div_lt_iff_lt_mul divisor]
      exact (gt_wordMax_div_iff positive).mp refused
    rw [if_pos refused, if_pos refused']
    rfl
  · have fits := not_lt.mp (mt (gt_wordMax_div_iff positive).mpr refused)
    have accepted' : ¬lhs.toNat > sizeMax / rhs.toNat := by
      rw [gt_iff_lt, Nat.div_lt_iff_lt_mul divisor]
      exact not_lt.mpr fits
    rw [if_neg refused, if_neg accepted', ← toNat_mul_of_le fits]
    rfl

theorem addressRange_map (pointer bytes : UInt64) :
    (addressRange pointer bytes).map (Prod.map UInt64.toNat UInt64.toNat) =
      Communicator.addressRange pointer.toNat bytes.toNat := by
  have pointer_le : pointer.toNat ≤ sizeMax := Nat.le_pred_of_lt pointer.toNat_lt
  unfold addressRange Communicator.addressRange
  by_cases refused : bytes > wordMax - pointer
  · have outside := gt_wordMax_sub_iff.mp refused
    rw [if_pos refused, if_pos (by omega)]
    rfl
  · have fits := not_lt.mp (mt gt_wordMax_sub_iff.mpr refused)
    rw [if_neg refused, if_neg (by omega), ← toNat_add_of_le fits]
    rfl

/-- On the 64-bit machine the checks of the buffers are those on natural numbers. -/
theorem validateBufferArgs_eq {args : CppArgs} {dtype : DType} (known : args.dtype = some dtype)
    (sendCount recvCount : UInt64) (collectiveName : String) :
    validateBufferArgs args sendCount recvCount collectiveName =
      Communicator.validateBufferArgs args.buffers sendCount.toNat recvCount.toNat dtype
        collectiveName := by
  obtain ⟨size, size_eq, size_pos, size_toNat⟩ : ∃ size : UInt64, dtypeSize args.dtype = .ok size ∧
      0 < size ∧ size.toNat = dtype.size := by
    rw [known]
    cases dtype
    · exact ⟨4, rfl, by decide, rfl⟩
    · exact ⟨2, rfl, by decide, rfl⟩
    · exact ⟨2, rfl, by decide, rfl⟩
  have nonempty : (sendCount.toNat = 0 ∨ recvCount.toNat = 0) ↔
      (sendCount = 0 ∨ recvCount = 0) := by
    rw [toNat_eq_zero_iff, toNat_eq_zero_iff]
  have nonnull : (args.buffers.sendBuffer = 0 ∨ args.buffers.recvBuffer = 0 ∨
      args.buffers.stream = 0) ↔ (args.sendBuffer = 0 ∨ args.recvBuffer = 0 ∨ args.stream = 0) := by
    simp only [CppArgs.buffers, toNat_eq_zero_iff]
  have ranges (sendBytes recvBytes : UInt64) :
      (do
        let send ← addressRange args.sendBuffer sendBytes
        let recv ← addressRange args.recvBuffer recvBytes
        if send.1 < recv.2 ∧ recv.1 < send.2 then
          throw ("overlapping " ++ collectiveName ++ " send and receive buffers are unsupported")) =
      (do
        let send ← Communicator.addressRange args.buffers.sendBuffer sendBytes.toNat
        let recv ← Communicator.addressRange args.buffers.recvBuffer recvBytes.toNat
        if send.1 < recv.2 ∧ recv.1 < send.2 then
          throw
            ("overlapping " ++ collectiveName ++
              " send and receive buffers are unsupported")) := by
    simp only [CppArgs.buffers, ← addressRange_map, map_bind_eq, Prod.map_fst, Prod.map_snd,
      ← UInt64.lt_iff_toNat_lt]
  unfold validateBufferArgs Communicator.validateBufferArgs
  by_cases empty : sendCount = 0 ∨ recvCount = 0
  · rw [if_pos empty, if_pos (nonempty.mpr empty)]
    rfl
  by_cases null : args.sendBuffer = 0 ∨ args.recvBuffer = 0 ∨ args.stream = 0
  · rw [if_neg empty, if_neg (mt nonempty.mp empty), if_pos null, if_pos (nonnull.mpr null)]
    rfl
  rw [if_neg empty, if_neg (mt nonempty.mp empty), if_neg null, if_neg (mt nonnull.mp null),
    size_eq, ok_bind_eq, ← size_toNat, ← checkedMultiply_map size_pos,
    ← checkedMultiply_map size_pos]
  simp only [map_bind_eq, ranges]

theorem validateBufferArgs_ok_iff {args : CppArgs} {sendCount recvCount : UInt64}
    {collectiveName : String} :
    validateBufferArgs args sendCount recvCount collectiveName = .ok () ↔
      ∃ dtype, args.dtype = some dtype ∧
        ValidBuffers args.buffers sendCount.toNat recvCount.toNat dtype := by
  cases known : args.dtype with
  | some dtype =>
      rw [validateBufferArgs_eq known, Communicator.validateBufferArgs_ok_iff]
      simp
  | none =>
      refine iff_of_false ?_ (by simp)
      unfold validateBufferArgs
      simp only [known, dtypeSize]
      split_ifs <;> simp [bind, Except.bind]

theorem checkedMultiply_ok_iff {lhs rhs product : UInt64} (positive : 0 < rhs) {message : String} :
    checkedMultiply lhs rhs message = .ok product ↔
      lhs.toNat * rhs.toNat ≤ sizeMax ∧ lhs * rhs = product := by
  unfold checkedMultiply
  split_ifs with refused
  · have outside := not_le.mpr ((gt_wordMax_div_iff positive).mp refused)
    simp [outside]
  · have fits := not_lt.mp (mt (gt_wordMax_div_iff positive).mpr refused)
    simp [fits]

theorem validateRedop_ok_iff {redop : Option RedOp} :
    validateRedop redop = .ok () ↔ redop ≠ none := by
  cases redop with
  | none => simp [validateRedop]
  | some redop => cases redop <;> simp [validateRedop]

end Impl

/-- Arguments of a collective that moves so many elements, in exact integers. -/
def CArgs.Valid (args : CArgs) (sendCount recvCount : ℕ) : Prop :=
  sendCount ≤ sizeMax ∧ recvCount ≤ sizeMax ∧ ∃ dtype, toCppDtype args.dtype = some dtype ∧
    ValidBuffers args.toCpp.buffers sendCount recvCount dtype

/-- A check without a result, followed by others. -/
theorem check_bind_ok_iff {ε β : Type} {first : Except ε Unit} {next : Unit → Except ε β}
    {result : β} :
    (first >>= next) = .ok result ↔ first = .ok () ∧ next () = .ok result := by
  cases first <;> simp [bind, Except.bind]

theorem toNat_le_sizeMax (word : UInt64) : word.toNat ≤ sizeMax := Nat.le_pred_of_lt word.toNat_lt

theorem CArgs.valid_iff {args : CArgs} {sendCount recvCount : UInt64} {sendExact recvExact : ℕ}
    (sends : sendCount.toNat = sendExact) (recvs : recvCount.toNat = recvExact) :
    args.Valid sendExact recvExact ↔ ∃ dtype, toCppDtype args.dtype = some dtype ∧
      ValidBuffers args.toCpp.buffers sendCount.toNat recvCount.toNat dtype := by
  subst sends recvs
  simp only [CArgs.Valid, toNat_le_sizeMax, true_and]

section

variable {kRanks : UInt64} {args : CArgs}

theorem validateAllReduceArgs_ok_iff :
    Impl.validateAllReduceArgs args.toCpp = .ok () ↔
      args.Valid args.count.toNat args.count.toNat ∧ toCppRedop args.redop ≠ none := by
  unfold Impl.validateAllReduceArgs
  rw [check_bind_ok_iff, Impl.validateBufferArgs_ok_iff, Impl.validateRedop_ok_iff,
    CArgs.valid_iff rfl rfl]
  rfl

theorem validateReduceScatterArgs_ok_iff (ranks : 0 < kRanks) :
    Impl.validateReduceScatterArgs kRanks args.toCpp = .ok () ↔
      args.Valid (args.count.toNat * kRanks.toNat) args.count.toNat ∧
        toCppRedop args.redop ≠ none := by
  unfold Impl.validateReduceScatterArgs
  rw [bind_ok_iff]
  simp only [Impl.checkedMultiply_ok_iff ranks, check_bind_ok_iff,
    Impl.validateBufferArgs_ok_iff, Impl.validateRedop_ok_iff]
  constructor
  · rintro ⟨_, ⟨fits, rfl⟩, valid, redop⟩
    exact ⟨(CArgs.valid_iff (toNat_mul_of_le fits) rfl).mpr valid, redop⟩
  · rintro ⟨valid, redop⟩
    have fits : args.count.toNat * kRanks.toNat ≤ sizeMax := valid.1
    exact ⟨_, ⟨fits, rfl⟩, (CArgs.valid_iff (toNat_mul_of_le fits) rfl).mp valid, redop⟩

theorem validateAllGatherArgs_ok_iff (ranks : 0 < kRanks) :
    Impl.validateAllGatherArgs kRanks args.toCpp = .ok () ↔
      args.Valid args.count.toNat (args.count.toNat * kRanks.toNat) := by
  unfold Impl.validateAllGatherArgs
  simp only [bind_ok_iff, Impl.checkedMultiply_ok_iff ranks,
    Impl.validateBufferArgs_ok_iff]
  constructor
  · rintro ⟨_, ⟨fits, rfl⟩, valid⟩
    exact (CArgs.valid_iff rfl (toNat_mul_of_le fits)).mpr valid
  · intro valid
    have fits : args.count.toNat * kRanks.toNat ≤ sizeMax := valid.2.1
    exact ⟨_, ⟨fits, rfl⟩, (CArgs.valid_iff rfl (toNat_mul_of_le fits)).mp valid⟩

end

/-! ### The C entry points on natural numbers -/

namespace CApi

theorem checkedMultiply_eq_some_iff {lhs rhs product : UInt64} (positive : 0 < rhs) :
    checkedMultiply lhs rhs = some product ↔
      lhs.toNat * rhs.toNat ≤ sizeMax ∧ lhs * rhs = product := by
  unfold checkedMultiply
  split_ifs with refused
  · have outside := not_le.mpr ((gt_wordMax_div_iff positive).mp refused)
    simp [outside]
  · have fits := not_lt.mp (mt (gt_wordMax_div_iff positive).mpr refused)
    simp [fits]

theorem checkedMultiply_eq_none_iff {lhs rhs : UInt64} (positive : 0 < rhs) :
    checkedMultiply lhs rhs = none ↔ sizeMax < lhs.toNat * rhs.toNat := by
  unfold checkedMultiply
  rw [ite_eq_left_iff, gt_wordMax_div_iff positive]
  simp

theorem validateRedop_ok_iff {redop : Int32} :
    validateRedop redop = .ok () ↔ toCppRedop redop ≠ none := by
  unfold validateRedop
  cases toCppRedop redop <;> simp

theorem toNat_dtypeSize {code : Int32} {dtype : DType} (known : toCppDtype code = some dtype) :
    (dtypeSize code).toNat = dtype.size := by
  unfold toCppDtype at known
  unfold dtypeSize
  split_ifs at known with float float16 bfloat16 <;> obtain rfl := Option.some.inj known
  · rw [if_pos float]
    rfl
  · rw [if_neg float]
    rfl
  · rw [if_neg float]
    rfl

theorem validateBufferArgs_ok_iff {sendBuffer recvBuffer stream count : UInt64} :
    validateBufferArgs sendBuffer recvBuffer stream count = .ok () ↔
      sendBuffer ≠ 0 ∧ recvBuffer ≠ 0 ∧ stream ≠ 0 ∧ count ≠ 0 ∧ sendBuffer ≠ recvBuffer := by
  unfold validateBufferArgs
  split_ifs with null empty inPlace
  · refine iff_of_false (by simp) fun given => ?_
    rcases null with null | null | null
    · exact given.1 null
    · exact given.2.1 null
    · exact given.2.2.1 null
  · exact iff_of_false (by simp) fun given => given.2.2.2.1 empty
  · exact iff_of_false (by simp) fun given => given.2.2.2.2 inPlace
  · simp only [not_or] at null
    exact iff_of_true rfl ⟨null.1, null.2.1, null.2.2, empty, inPlace⟩

theorem validateBufferOverlap_ok_iff {sendBuffer recvBuffer sendCount recvCount : UInt64}
    {code : Int32} {dtype : DType} (known : toCppDtype code = some dtype) :
    validateBufferOverlap sendBuffer recvBuffer sendCount recvCount code = .ok () ↔
      sendBuffer.toNat + sendCount.toNat * dtype.size ≤ sizeMax ∧
      recvBuffer.toNat + recvCount.toNat * dtype.size ≤ sizeMax ∧
      ¬(sendBuffer.toNat < recvBuffer.toNat + recvCount.toNat * dtype.size ∧
        recvBuffer.toNat < sendBuffer.toNat + sendCount.toNat * dtype.size) := by
  have size_eq := toNat_dtypeSize known
  have positive : 0 < dtypeSize code := by
    rw [UInt64.lt_iff_toNat_lt, size_eq]
    exact dtype.size_pos
  unfold validateBufferOverlap
  cases sendBytes_eq : checkedMultiply sendCount (dtypeSize code) with
  | none =>
      have outside := (checkedMultiply_eq_none_iff positive).mp sendBytes_eq
      rw [size_eq] at outside
      exact iff_of_false (by simp) fun given => by omega
  | some sendBytes =>
  cases recvBytes_eq : checkedMultiply recvCount (dtypeSize code) with
  | none =>
      have outside := (checkedMultiply_eq_none_iff positive).mp recvBytes_eq
      rw [size_eq] at outside
      exact iff_of_false (by simp) fun given => by omega
  | some recvBytes =>
  obtain ⟨sendFits, rfl⟩ := (checkedMultiply_eq_some_iff positive).mp sendBytes_eq
  obtain ⟨recvFits, rfl⟩ := (checkedMultiply_eq_some_iff positive).mp recvBytes_eq
  have sendBytes_toNat := toNat_mul_of_le sendFits
  have recvBytes_toNat := toNat_mul_of_le recvFits
  rw [size_eq] at sendBytes_toNat recvBytes_toNat
  simp only
  split_ifs with sendRange recvRange overlap
  · have outside := gt_wordMax_sub_iff.mp sendRange
    exact iff_of_false (by simp) fun given => by omega
  · have outside := gt_wordMax_sub_iff.mp recvRange
    exact iff_of_false (by simp) fun given => by omega
  all_goals
    have sendFits := not_lt.mp (mt gt_wordMax_sub_iff.mpr sendRange)
    have recvFits := not_lt.mp (mt gt_wordMax_sub_iff.mpr recvRange)
    rw [UInt64.lt_iff_toNat_lt, UInt64.lt_iff_toNat_lt, toNat_add_of_le recvFits,
      toNat_add_of_le sendFits, sendBytes_toNat, recvBytes_toNat] at overlap
    rw [sendBytes_toNat] at sendFits
    rw [recvBytes_toNat] at recvFits
  · exact iff_of_false (by simp) fun given => given.2.2 overlap
  · exact iff_of_true rfl ⟨sendFits, recvFits, overlap⟩

/-- Both checks of the buffers together. -/
theorem validateBuffers_ok_iff {args : CArgs} {sendCount recvCount : UInt64}
    (sends : sendCount = 0 ↔ args.count = 0) (recvs : recvCount = 0 ↔ args.count = 0) :
    (validateBufferArgs args.sendBuffer args.recvBuffer args.stream args.count = .ok () ∧
      toCppDtype args.dtype ≠ none ∧
      validateBufferOverlap args.sendBuffer args.recvBuffer sendCount recvCount args.dtype =
        .ok ()) ↔
    ∃ dtype, toCppDtype args.dtype = some dtype ∧
      ValidBuffers args.toCpp.buffers sendCount.toNat recvCount.toNat dtype := by
  rw [validateBufferArgs_ok_iff]
  constructor
  · rintro ⟨⟨sendBuffer_ne, recvBuffer_ne, stream_ne, count_ne, -⟩, known, overlap⟩
    obtain ⟨dtype, known⟩ := Option.ne_none_iff_exists'.mp known
    obtain ⟨sendEnd_le, recvEnd_le, apart⟩ := (validateBufferOverlap_ok_iff known).mp overlap
    refine ⟨dtype, known, ?_⟩
    exact {
      sendBuffer_ne := mt toNat_eq_zero_iff.mp sendBuffer_ne
      recvBuffer_ne := mt toNat_eq_zero_iff.mp recvBuffer_ne
      stream_ne := mt toNat_eq_zero_iff.mp stream_ne
      sendCount_pos := Nat.pos_of_ne_zero (mt toNat_eq_zero_iff.mp (mt sends.mp count_ne))
      recvCount_pos := Nat.pos_of_ne_zero (mt toNat_eq_zero_iff.mp (mt recvs.mp count_ne))
      sendBytes_le := le_trans (Nat.le_add_left _ _) sendEnd_le
      recvBytes_le := le_trans (Nat.le_add_left _ _) recvEnd_le
      sendEnd_le, recvEnd_le
      disjoint := not_overlapping_iff.mp apart }
  · rintro ⟨dtype, known, valid⟩
    have sendBytes_pos := Nat.mul_pos valid.sendCount_pos dtype.size_pos
    have recvBytes_pos := Nat.mul_pos valid.recvCount_pos dtype.size_pos
    have apart := valid.disjoint
    refine ⟨⟨mt toNat_eq_zero_iff.mpr valid.sendBuffer_ne,
      mt toNat_eq_zero_iff.mpr valid.recvBuffer_ne, mt toNat_eq_zero_iff.mpr valid.stream_ne,
      fun empty => ?_, fun inPlace => ?_⟩, by simp [known], (validateBufferOverlap_ok_iff known).mpr
      ⟨valid.sendEnd_le, valid.recvEnd_le, not_overlapping_iff.mpr apart⟩⟩
    · have := valid.sendCount_pos
      rw [sends.mpr empty] at this
      exact absurd this (by decide)
    · -- the ranges are not empty, so they cannot start together and stay apart
      simp only [CArgs.toCpp, CppArgs.buffers, inPlace] at apart
      omega

section

variable {globalRankCount : UInt64} {args : CArgs}

theorem mul_eq_zero_iff (ranks : 0 < globalRankCount)
    (fits : args.count.toNat * globalRankCount.toNat ≤ sizeMax) :
    args.count * globalRankCount = 0 ↔ args.count = 0 := by
  have ranks : 0 < globalRankCount.toNat := UInt64.lt_iff_toNat_lt.mp ranks
  rw [← toNat_eq_zero_iff, toNat_mul_of_le fits, Nat.mul_eq_zero, toNat_eq_zero_iff]
  exact or_iff_left (Nat.ne_of_gt ranks)

theorem nanoNcclAllReduce_ok_iff :
    nanoNcclAllReduce args = .ok () ↔
      args.Valid args.count.toNat args.count.toNat ∧ toCppRedop args.redop ≠ none := by
  rw [CArgs.valid_iff rfl rfl, ← validateBuffers_ok_iff Iff.rfl Iff.rfl]
  unfold nanoNcclAllReduce
  simp only [check_bind_ok_iff, ite_throw_ok_iff, validateRedop_ok_iff, and_assoc, ne_eq]

theorem nanoNcclReduceScatter_ok_iff (ranks : 0 < globalRankCount) :
    nanoNcclReduceScatter globalRankCount args = .ok () ↔
      args.Valid (args.count.toNat * globalRankCount.toNat) args.count.toNat ∧
        toCppRedop args.redop ≠ none := by
  unfold nanoNcclReduceScatter
  by_cases fits : args.count.toNat * globalRankCount.toNat ≤ sizeMax
  · rw [CArgs.valid_iff (toNat_mul_of_le fits) rfl,
      ← validateBuffers_ok_iff (mul_eq_zero_iff ranks fits) Iff.rfl,
      (checkedMultiply_eq_some_iff ranks).mpr ⟨fits, rfl⟩]
    simp only [check_bind_ok_iff, ite_throw_ok_iff, validateRedop_ok_iff, and_assoc, ne_eq]
  · rw [(checkedMultiply_eq_none_iff ranks).mpr (not_le.mp fits)]
    refine iff_of_false ?_ fun given => fits given.1.1
    simp [check_bind_ok_iff, ite_throw_ok_iff]

theorem nanoNcclAllGather_ok_iff (ranks : 0 < globalRankCount) :
    nanoNcclAllGather globalRankCount args = .ok () ↔
      args.Valid args.count.toNat (args.count.toNat * globalRankCount.toNat) := by
  unfold nanoNcclAllGather
  by_cases fits : args.count.toNat * globalRankCount.toNat ≤ sizeMax
  · rw [CArgs.valid_iff rfl (toNat_mul_of_le fits),
      ← validateBuffers_ok_iff Iff.rfl (mul_eq_zero_iff ranks fits),
      (checkedMultiply_eq_some_iff ranks).mpr ⟨fits, rfl⟩]
    simp only [check_bind_ok_iff, ite_throw_ok_iff, ne_eq]
  · rw [(checkedMultiply_eq_none_iff ranks).mpr (not_le.mp fits)]
    refine iff_of_false ?_ fun given => fits given.2.1
    simp [check_bind_ok_iff, ite_throw_ok_iff]

end

end CApi

/-- The C entry point of a collective accepts a descriptor exactly when the communicator accepts
the converted one. Both accept exactly the descriptors that are valid in exact integers, where the
larger buffer of a reduce-scatter or of an all-gather holds `count * kRanks` elements and both
buffers of an all-reduce hold `count`. -/
theorem validate_ok_iff (kRanks : UInt64) (ranks : 0 < kRanks) (args : CArgs) :
    ((CApi.nanoNcclAllReduce args = .ok () ↔ Impl.validateAllReduceArgs args.toCpp = .ok ()) ∧
      (Impl.validateAllReduceArgs args.toCpp = .ok () ↔
        args.Valid args.count.toNat args.count.toNat ∧ toCppRedop args.redop ≠ none)) ∧
    ((CApi.nanoNcclReduceScatter kRanks args = .ok () ↔
        Impl.validateReduceScatterArgs kRanks args.toCpp = .ok ()) ∧
      (Impl.validateReduceScatterArgs kRanks args.toCpp = .ok () ↔
        args.Valid (args.count.toNat * kRanks.toNat) args.count.toNat ∧
          toCppRedop args.redop ≠ none)) ∧
    ((CApi.nanoNcclAllGather kRanks args = .ok () ↔
        Impl.validateAllGatherArgs kRanks args.toCpp = .ok ()) ∧
      (Impl.validateAllGatherArgs kRanks args.toCpp = .ok () ↔
        args.Valid args.count.toNat (args.count.toNat * kRanks.toNat))) := by
  refine ⟨⟨?_, validateAllReduceArgs_ok_iff⟩, ⟨?_, validateReduceScatterArgs_ok_iff ranks⟩,
    ?_, validateAllGatherArgs_ok_iff ranks⟩
  · rw [CApi.nanoNcclAllReduce_ok_iff, validateAllReduceArgs_ok_iff]
  · rw [CApi.nanoNcclReduceScatter_ok_iff ranks, validateReduceScatterArgs_ok_iff ranks]
  · rw [CApi.nanoNcclAllGather_ok_iff ranks, validateAllGatherArgs_ok_iff ranks]

/-- Two buffers that touch, behind both validators. -/
def touchingArgs : CArgs := ⟨0x1000, 0x1400, 1, 256, 0, 0⟩

theorem validate_ok_iff_touchingArgs :
    CApi.nanoNcclAllReduce touchingArgs = .ok () ∧
      Impl.validateAllReduceArgs touchingArgs.toCpp = .ok () := by
  have both := (validate_ok_iff 4 (by decide) touchingArgs).1
  have accepted : CApi.nanoNcclAllReduce touchingArgs = .ok () := by decide
  exact ⟨accepted, both.1.mp accepted⟩

/-- Half-precision elements that fill a quarter of the address space. -/
def largeArgs : CArgs := ⟨0x4000000000000000, 0x8000000000000000, 1, 0x1000000000000000, 1, 0⟩

/-- An all-reduce is accepted although its element count times the number of ranks overflows. -/
theorem largeArgs_accepted :
    CApi.nanoNcclAllReduce largeArgs = .ok () ∧
      Impl.validateAllReduceArgs largeArgs.toCpp = .ok () ∧
      ¬largeArgs.count.toNat * (16 : UInt64).toNat ≤ sizeMax := by
  decide

end Communicator
end NanoNccl
