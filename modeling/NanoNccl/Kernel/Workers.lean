import Mathlib.Data.List.Nodup
import NanoNccl.Kernel.Movers
import NanoNccl.Lib.Strided

/-!
# The data workers of the kernel

Seven workers move the elements of a slice, each with up to four index schemes: scalar, one vector
at a time, an unrolled strided vector loop and eight packed 16-bit lanes, chosen by element type
and alignment, with a scalar loop over what the vectors leave. Whatever the scheme, the number of
workers and the interleaving, each index is moved once and as scalar code would.
-/

namespace NanoNccl
namespace Workers

open Threads Strided

variable {α : Type}

/-- What is fixed when a worker is instantiated and launched. -/
structure WorkerLaunch (α : Type) where
  /-- The element type. -/
  dtype : DType
  /-- `kFloat4Unroll` -/
  kFloat4Unroll : ℕ
  nworkers : ℕ
  /-- `kRedOp` -/
  redop : RedOp
  /-- `RedOpTraits<kRedOp, T>::apply` -/
  apply : RedOp → α → α → α
  /-- `scale_avg` with the inverse of the number of ranks. -/
  scaleAvg : α → α

/-- `aligned_vec4` -/
def alignedVec4 (a b c : ℕ) : Bool :=
  ((a * DType.float.size ||| b * DType.float.size ||| c * DType.float.size) &&& 0xf) == 0

/-- `aligned_packed16` -/
def alignedPacked16 (dtype : DType) (a b c : ℕ) : Bool :=
  ((a * dtype.size ||| b * dtype.size ||| c * dtype.size) &&& 0xf) == 0

/-! ### The loops of a worker -/

section Loops

variable (mover : Mover α) (size lanes unroll nworkers thread count : ℕ)

/-- A vector loads and stores `lanes` elements at once. -/
def vectorPiece (i : ℕ) : ℕ × ℕ := (lanes * i, lanes)

/-- The loop over `vecCount` vectors; the unrolled loop loads up to `unroll` vectors before it
stores them. -/
def vectorLoop (vecCount : ℕ) : ThreadProgram α Unit :=
  if unroll = 1 then
    Program.forEach (indices thread vecCount nworkers) fun i =>
      mover.move size [vectorPiece lanes i]
  else
    Program.forEach (indices thread vecCount (nworkers * unroll)) fun base =>
      mover.move size ((batch vecCount nworkers unroll base).map (vectorPiece lanes))

/-- The loop over single elements from `scalarBegin` on. -/
def scalarLoop (scalarBegin : ℕ) : ThreadProgram α Unit :=
  Program.forEach (indices (scalarBegin + thread) count nworkers) fun i => mover.move size [(i, 1)]

/-- The body all workers share: vectors where the buffers allow it, single elements for the rest. -/
def moveSlice (aligned : Bool) : ThreadProgram α Unit :=
  if nworkers ≤ thread then pure ()
  else if aligned then do
    vectorLoop mover size lanes unroll nworkers thread (count / lanes)
    scalarLoop mover size nworkers thread count (count / lanes * lanes)
  else scalarLoop mover size nworkers thread count 0

end Loops

/-! ### The workers -/

section Workers

variable (launch : WorkerLaunch α) (thread count : ℕ)

/-- Copy to one or two destinations. -/
def copyTo (src : ℕ) (dests : List ℕ) : Mover α := ⟨.copy src, id, dests⟩

/-- Reduce to one or two destinations; `scaled` is whether the worker scales an average. -/
def reduceTo (scaled : Bool) (own recv : ℕ) (dests : List ℕ) : Mover α :=
  ⟨.reduce (launch.apply launch.redop) own recv,
    if scaled = true ∧ launch.redop = .avg then launch.scaleAvg else id, dests⟩

/-- The float body of a worker. -/
def floatSlice (mover : Mover α) (aligned : Bool) : ThreadProgram α Unit :=
  moveSlice mover launch.dtype.size 4 launch.kFloat4Unroll launch.nworkers thread count aligned

/-- The packed 16-bit body of a worker, eight lanes at a time and never unrolled. -/
def packed16Slice (mover : Mover α) : ThreadProgram α Unit :=
  moveSlice mover launch.dtype.size 8 1 launch.nworkers thread count true

/-- The scalar body of a worker. -/
def scalarSlice (mover : Mover α) : ThreadProgram α Unit :=
  moveSlice mover launch.dtype.size 1 1 launch.nworkers thread count false

/-- `copy_float_worker` -/
def copyFloatWorker (src dst : ℕ) : ThreadProgram α Unit :=
  floatSlice launch thread count (copyTo src [dst]) (alignedVec4 src dst dst)

/-- `copy_volatile_float_worker` -/
def copyVolatileFloatWorker (src dst : ℕ) : ThreadProgram α Unit :=
  floatSlice launch thread count (copyTo src [dst]) (alignedVec4 src dst dst)

/-- `copy_packed16_worker` -/
def copyPacked16Worker (src dst : ℕ) : ThreadProgram α Unit :=
  packed16Slice launch thread count (copyTo src [dst])

/-- `copy_volatile_packed16_worker` -/
def copyVolatilePacked16Worker (src dst : ℕ) : ThreadProgram α Unit :=
  packed16Slice launch thread count (copyTo src [dst])

/-- `copy_scalar_worker` -/
def copyScalarWorker (src dst : ℕ) : ThreadProgram α Unit :=
  scalarSlice launch thread count (copyTo src [dst])

/-- `copy_worker` -/
def copyWorker (src dst : ℕ) : ThreadProgram α Unit :=
  match launch.dtype with
  | .float => copyFloatWorker launch thread count src dst
  | .float16 | .bfloat16 =>
      if alignedPacked16 launch.dtype src dst dst then
        copyPacked16Worker launch thread count src dst
      else copyScalarWorker launch thread count src dst

/-- `copy_volatile_worker` -/
def copyVolatileWorker (src dst : ℕ) : ThreadProgram α Unit :=
  match launch.dtype with
  | .float => copyVolatileFloatWorker launch thread count src dst
  | .float16 | .bfloat16 =>
      if alignedPacked16 launch.dtype src dst dst then
        copyVolatilePacked16Worker launch thread count src dst
      else copyScalarWorker launch thread count src dst

/-- `reduce_volatile_packed16_worker` -/
def reduceVolatilePacked16Worker (kScaleAvg : Bool) (own recv dst : ℕ) : ThreadProgram α Unit :=
  packed16Slice launch thread count (reduceTo launch kScaleAvg own recv [dst])

/-- `reduce_volatile_worker` -/
def reduceVolatileWorker (kScaleAvg : Bool) (own recv dst : ℕ) : ThreadProgram α Unit :=
  match launch.dtype with
  | .float =>
      floatSlice launch thread count (reduceTo launch kScaleAvg own recv [dst])
        (alignedVec4 own recv dst)
  | .float16 | .bfloat16 =>
      if alignedPacked16 launch.dtype own recv dst then
        reduceVolatilePacked16Worker launch thread count kScaleAvg own recv dst
      else scalarSlice launch thread count (reduceTo launch kScaleAvg own recv [dst])

/-- `copy_broadcast_volatile_packed16_worker` -/
def copyBroadcastVolatilePacked16Worker (src dst0 dst1 : ℕ) : ThreadProgram α Unit :=
  packed16Slice launch thread count (copyTo src [dst0, dst1])

/-- `copy_broadcast_volatile_worker` -/
def copyBroadcastVolatileWorker (src dst0 dst1 : ℕ) : ThreadProgram α Unit :=
  match launch.dtype with
  | .float =>
      floatSlice launch thread count (copyTo src [dst0, dst1]) (alignedVec4 src dst0 dst1)
  | .float16 | .bfloat16 =>
      if alignedPacked16 launch.dtype src dst0 dst1 then
        copyBroadcastVolatilePacked16Worker launch thread count src dst0 dst1
      else scalarSlice launch thread count (copyTo src [dst0, dst1])

/-- `reduce_broadcast_volatile_packed16_worker` -/
def reduceBroadcastVolatilePacked16Worker (own recv dst0 dst1 : ℕ) : ThreadProgram α Unit :=
  packed16Slice launch thread count (reduceTo launch true own recv [dst0, dst1])

/-- `reduce_broadcast_volatile_worker` -/
def reduceBroadcastVolatileWorker (own recv dst0 dst1 : ℕ) : ThreadProgram α Unit :=
  match launch.dtype with
  | .float =>
      floatSlice launch thread count (reduceTo launch true own recv [dst0, dst1])
        (alignedVec4 own recv dst0 && alignedVec4 own recv dst1)
  | .float16 | .bfloat16 =>
      if alignedPacked16 launch.dtype own recv dst0 &&
          alignedPacked16 launch.dtype own recv dst1 then
        reduceBroadcastVolatilePacked16Worker launch thread count own recv dst0 dst1
      else scalarSlice launch thread count (reduceTo launch true own recv [dst0, dst1])

/-- `reduce_local_into_dst`: the received elements are in `dst`. -/
def reduceLocalIntoDst (kScaleAvg : Bool) (own dst : ℕ) : ThreadProgram α Unit :=
  match launch.dtype with
  | .float =>
      floatSlice launch thread count (reduceTo launch kScaleAvg own dst [dst])
        (alignedVec4 own dst dst)
  | .float16 | .bfloat16 =>
      if alignedPacked16 launch.dtype own dst dst then
        packed16Slice launch thread count (reduceTo launch kScaleAvg own dst [dst])
      else scalarSlice launch thread count (reduceTo launch kScaleAvg own dst [dst])

/-- `reduce_local_broadcast_worker`: the received elements are in `dst1`. -/
def reduceLocalBroadcastWorker (own dst0 dst1 : ℕ) : ThreadProgram α Unit :=
  match launch.dtype with
  | .float =>
      floatSlice launch thread count (reduceTo launch true own dst1 [dst0, dst1])
        (alignedVec4 own dst0 dst1)
  | .float16 | .bfloat16 =>
      if alignedPacked16 launch.dtype own dst0 dst1 then
        packed16Slice launch thread count (reduceTo launch true own dst1 [dst0, dst1])
      else scalarSlice launch thread count (reduceTo launch true own dst1 [dst0, dst1])

end Workers

/-! ### Which thread moves an index -/

section Owner

variable {mover : Mover α} {size lanes unroll nworkers thread count : ℕ}

/-- The groups of the vector loop, as lists of vectors. -/
def vectorBatches (unroll nworkers thread vecCount : ℕ) : List (List ℕ) :=
  if unroll = 1 then (indices thread vecCount nworkers).map fun i => [i]
  else (indices thread vecCount (nworkers * unroll)).map (batch vecCount nworkers unroll)

/-- The groups of a worker, in order. -/
def sliceGroups (lanes unroll nworkers thread count : ℕ) (aligned : Bool) :
    List (List (ℕ × ℕ)) :=
  if aligned then
    (vectorBatches unroll nworkers thread (count / lanes)).map (·.map (vectorPiece lanes)) ++
      (indices (count / lanes * lanes + thread) count nworkers).map fun i => [(i, 1)]
  else (indices (0 + thread) count nworkers).map fun i => [(i, 1)]

theorem moveSlice_eq (aligned : Bool) (worker : thread < nworkers) :
    moveSlice mover size lanes unroll nworkers thread count aligned =
      Program.forEach (sliceGroups lanes unroll nworkers thread count aligned)
        (mover.move size) := by
  unfold moveSlice sliceGroups
  rw [if_neg (Nat.not_le.mpr worker)]
  cases aligned with
  | false =>
      simp only [Bool.false_eq_true, if_false, Program.forEach_map]
      rfl
  | true =>
      simp only [if_true, Program.forEach_append, Program.forEach_map, scalarLoop]
      congr 1
      unfold vectorLoop vectorBatches
      split
      · rw [Program.forEach_map]
        rfl
      · rw [Program.forEach_map]

/-- Unrolled or not, the vector loop of a thread takes the same vectors. -/
theorem flatten_vectorBatches (workers : 0 < nworkers) (unrolled : 0 < unroll) (vecCount : ℕ) :
    (vectorBatches unroll nworkers thread vecCount).flatten =
      indices thread vecCount nworkers := by
  unfold vectorBatches
  split
  · rw [← List.flatMap_def]
    exact List.flatMap_singleton' _
  · rw [← List.flatMap_def]
    exact flatMap_batch workers unrolled

/-- The thread that moves an index. -/
def owner (lanes nworkers count : ℕ) (aligned : Bool) (i : ℕ) : ℕ :=
  if aligned = true ∧ i < count / lanes * lanes then i / lanes % nworkers
  else if aligned then (i - count / lanes * lanes) % nworkers
  else i % nworkers

theorem within_vectorPieces (positive : 0 < lanes) {vectors : List ℕ} {i : ℕ} :
    Within (vectors.map (vectorPiece lanes)) i ↔ i / lanes ∈ vectors := by
  unfold Within vectorPiece
  simp only [List.mem_map]
  constructor
  · rintro ⟨_, ⟨vector, member, rfl⟩, low, high⟩
    have below : vector * lanes ≤ i := by rwa [Nat.mul_comm]
    have above : i < (vector + 1) * lanes := by rwa [Nat.succ_mul, Nat.mul_comm]
    rwa [Nat.div_eq_of_lt_le below above]
  · intro member
    refine ⟨_, ⟨i / lanes, member, rfl⟩, Nat.mul_div_le i lanes, ?_⟩
    have split := Nat.div_add_mod i lanes
    have small := Nat.mod_lt i positive
    simp only
    omega

theorem within_single {index i : ℕ} : Within [(index, 1)] i ↔ i = index := by
  unfold Within
  simp only [List.mem_singleton, exists_eq_left]
  omega

/-- The groups of a thread hold the indices it owns. -/
theorem within_sliceGroups (count i : ℕ) (positive : 0 < lanes) (unrolled : 0 < unroll)
    (worker : thread < nworkers) (aligned : Bool) :
    (∃ group ∈ sliceGroups lanes unroll nworkers thread count aligned, Within group i) ↔
      i < count ∧ owner lanes nworkers count aligned i = thread := by
  have workers : 0 < nworkers := Nat.zero_lt_of_lt worker
  have singles (start : ℕ) :
      (∃ group ∈ (indices (start + thread) count nworkers).map fun i => [(i, 1)],
          Within group i) ↔ start ≤ i ∧ i < count ∧ (i - start) % nworkers = thread := by
    rw [← mem_lane worker]
    simp only [List.mem_map, exists_exists_and_eq_and, within_single, exists_eq_right']
  cases aligned with
  | false =>
      simp only [sliceGroups, Bool.false_eq_true, if_false, singles, owner, false_and]
      simp
  | true =>
      have whole : count / lanes * lanes ≤ count := Nat.div_mul_le_self count lanes
      have vectors : (∃ group ∈ (vectorBatches unroll nworkers thread (count / lanes)).map
            (·.map (vectorPiece lanes)), Within group i) ↔
          i < count / lanes * lanes ∧ i / lanes % nworkers = thread := by
        have members : i / lanes ∈ indices (0 + thread) (count / lanes) nworkers ↔
            ∃ vectors ∈ vectorBatches unroll nworkers thread (count / lanes),
              i / lanes ∈ vectors := by
          rw [Nat.zero_add, ← flatten_vectorBatches workers unrolled, List.mem_flatten]
        simp only [List.mem_map, exists_exists_and_eq_and, within_vectorPieces positive, ← members,
          mem_lane worker, Nat.zero_le, true_and, Nat.sub_zero, Nat.div_lt_iff_lt_mul positive]
      simp only [sliceGroups, if_true, List.mem_append, or_and_right, exists_or, vectors, singles,
        owner, true_and]
      by_cases vector : i < count / lanes * lanes
      · simp only [vector, if_true, true_and, Nat.not_le.mpr vector, false_and, or_false,
          iff_and_self]
        omega
      · simp only [vector, if_false, false_and, false_or, Nat.not_lt.mp vector, true_and]

/-- No two groups of a thread share an index. -/
theorem sliceGroups_pairwise (positive : 0 < lanes) (unrolled : 0 < unroll)
    (workers : 0 < nworkers) (aligned : Bool) :
    (sliceGroups lanes unroll nworkers thread count aligned).Pairwise
      fun first second => ∀ i, Within first i → ¬ Within second i := by
  have singles (start : ℕ) : ((indices start count nworkers).map fun i => [(i, 1)]).Pairwise
      fun first second => ∀ i, Within first i → ¬ Within second i := by
    refine List.Pairwise.map _ ?_ (indices_pairwise workers)
    intro left right below i at_left at_right
    rw [within_single] at at_left at_right
    omega
  unfold sliceGroups
  cases aligned with
  | false => exact singles _
  | true =>
      simp only [if_true]
      rw [List.pairwise_append]
      refine ⟨?_, singles _, ?_⟩
      · have distinct : (vectorBatches unroll nworkers thread (count / lanes)).flatten.Nodup := by
          rw [flatten_vectorBatches workers unrolled]
          exact (indices_pairwise workers).imp Nat.ne_of_lt
        refine List.Pairwise.map _ ?_ (List.nodup_flatten.mp distinct).2
        intro left right apart i at_left at_right
        rw [within_vectorPieces positive] at at_left at_right
        exact apart at_left at_right
      · intro left vector right single i at_left at_right
        obtain ⟨vectors, member, rfl⟩ := List.mem_map.mp vector
        obtain ⟨index, tail, rfl⟩ := List.mem_map.mp single
        rw [within_vectorPieces positive] at at_left
        rw [within_single] at at_right
        have inside : i / lanes ∈ indices thread (count / lanes) nworkers := by
          rw [← flatten_vectorBatches workers unrolled]
          exact List.mem_flatten.mpr ⟨vectors, member, at_left⟩
        have below : i < count / lanes * lanes :=
          (Nat.div_lt_iff_lt_mul positive).mp ((mem_indices workers).mp inside).2.1
        have above := ((mem_indices workers).mp tail).1
        omega

end Owner

/-! ### A slice moved by a block -/

section Slice

variable {mover : Mover α} {memory : ℕ → α} {size lanes unroll nworkers count : ℕ}

/-- Vector accesses of a worker that found its buffers aligned. -/
theorem sliceGroups_aligned {thread : ℕ} {aligned : Bool}
    (vectors : aligned = true → lanes * size = kVectorBytes ∧
      ∀ pointer ∈ mover.source.pointers ++ mover.dests, pointer * size % kVectorBytes = 0) :
    ∀ group ∈ sliceGroups lanes unroll nworkers thread count aligned, mover.Aligned size group := by
  intro group member piece inside
  unfold sliceGroups at member
  have single {pieces : List ℕ} (among : group ∈ pieces.map fun i => [(i, 1)]) : piece.2 = 1 := by
    obtain ⟨i, _, rfl⟩ := List.mem_map.mp among
    rw [List.mem_singleton.mp inside]
  cases aligned with
  | false => exact .inl (single member)
  | true =>
      obtain ⟨vector, bases⟩ := vectors rfl
      simp only [if_true] at member
      rcases List.mem_append.mp member with blocks | tail
      · obtain ⟨batch, _, rfl⟩ := List.mem_map.mp blocks
        obtain ⟨i, _, rfl⟩ := List.mem_map.mp inside
        refine .inr fun pointer among => ?_
        have address : (pointer + lanes * i) * size = pointer * size + kVectorBytes * i := by
          rw [← vector]
          ring
        rw [vectorPiece, address, Nat.add_mul_mod_self_left]
        exact bases pointer among
      · exact .inl (single tail)

theorem owner_lt (workers : 0 < nworkers) (aligned : Bool) (i : ℕ) :
    owner lanes nworkers count aligned i < nworkers := by
  unfold owner
  split_ifs <;> exact Nat.mod_lt _ workers

/-- A thread of a block moves the indices it owns. -/
theorem moveSlice_does {thread : ℕ} {aligned : Bool} (positive : 0 < lanes) (unrolled : 0 < unroll)
    (workers : 0 < nworkers) (separated : mover.Separated count)
    (vectors : aligned = true → lanes * size = kVectorBytes ∧
      ∀ pointer ∈ mover.source.pointers ++ mover.dests, pointer * size % kVectorBytes = 0) :
    mover.Does (mover.result memory)
      (fun i => i < count ∧ owner lanes nworkers count aligned i = thread)
      (solo (moveSlice mover size lanes unroll nworkers thread count aligned) memory).events := by
  by_cases worker : thread < nworkers
  · rw [moveSlice_eq aligned worker]
    have within (i : ℕ) := within_sliceGroups count i positive unrolled worker aligned
    exact (forEach_move_does separated (sliceGroups_aligned vectors)
      (fun group member i inside => ((within i).mp ⟨group, member, inside⟩).1)
      (sliceGroups_pairwise positive unrolled workers aligned)).of_iff within
  · rw [moveSlice, if_pos (Nat.not_lt.mp worker)]
    refine does_nothing mover fun i owned => worker ?_
    rw [← owned.2]
    exact owner_lt workers aligned i

/-- The threads of a block run the shared body on one slice. -/
def IsSlice (launch : WorkerLaunch α) (mover : Mover α) (count : ℕ)
    (program : ℕ → ThreadProgram α Unit) : Prop :=
  ∃ lanes unroll aligned, 0 < lanes ∧ 0 < unroll ∧
    (aligned = true → lanes * launch.dtype.size = kVectorBytes ∧
      ∀ pointer ∈ mover.source.pointers ++ mover.dests,
        pointer * launch.dtype.size % kVectorBytes = 0) ∧
    ∀ thread, program thread =
      moveSlice mover launch.dtype.size lanes unroll launch.nworkers thread count aligned

theorem alignedPacked16_iff {dtype : DType} {a b c : ℕ} :
    alignedPacked16 dtype a b c = true ↔ a * dtype.size % kVectorBytes = 0 ∧
      b * dtype.size % kVectorBytes = 0 ∧ c * dtype.size % kVectorBytes = 0 := by
  have mask (x : ℕ) : x &&& 0xf = x % kVectorBytes := Nat.and_two_pow_sub_one_eq_mod x 4
  have nibble : kVectorBytes = 2 ^ 4 := rfl
  rw [alignedPacked16, beq_iff_eq, mask, nibble, Nat.or_mod_two_pow, Nat.or_mod_two_pow,
    Nat.or_eq_zero_iff, Nat.or_eq_zero_iff, and_assoc]

/-- The choice of the body by element type and alignment. -/
theorem isSlice_dispatch {launch : WorkerLaunch α} {mover : Mover α} {count : ℕ}
    {program : ℕ → ThreadProgram α Unit} (unrolled : 0 < launch.kFloat4Unroll) (check : Bool)
    (bases : check = true → ∀ pointer ∈ mover.source.pointers ++ mover.dests,
      pointer * launch.dtype.size % kVectorBytes = 0)
    (floats : launch.dtype = .float →
      ∀ thread, program thread = floatSlice launch thread count mover check)
    (halves : launch.dtype ≠ .float → ∀ thread, program thread =
      if check then packed16Slice launch thread count mover
      else scalarSlice launch thread count mover) :
    IsSlice launch mover count program := by
  by_cases wide : launch.dtype = .float
  · refine ⟨4, launch.kFloat4Unroll, check, by omega, unrolled, fun aligned => ⟨?_, bases aligned⟩,
      floats wide⟩
    rw [wide]
    rfl
  · have size : launch.dtype.size = 2 := by
      cases dtype : launch.dtype <;> simp_all [DType.size]
    cases check with
    | true =>
        exact ⟨8, 1, true, by omega, by omega, fun _ => ⟨by rw [size]; rfl, bases rfl⟩, halves wide⟩
    | false => exact ⟨1, 1, false, by omega, by omega, by simp, halves wide⟩

end Slice

/-! ### All workers -/

/-- A call of a worker that the primitives use, with its buffers. -/
inductive WorkerCall
  | copyWorker (src dst : ℕ)
  | copyVolatileWorker (src dst : ℕ)
  | copyBroadcastVolatileWorker (src dst0 dst1 : ℕ)
  | reduceVolatileWorker (kScaleAvg : Bool) (own recv dst : ℕ)
  | reduceBroadcastVolatileWorker (own recv dst0 dst1 : ℕ)
  | reduceLocalIntoDst (kScaleAvg : Bool) (own dst : ℕ)
  | reduceLocalBroadcastWorker (own dst0 dst1 : ℕ)
  deriving DecidableEq

namespace WorkerCall

/-- What a thread of the block runs. -/
def program (launch : WorkerLaunch α) (count : ℕ) (call : WorkerCall) (thread : ℕ) :
    ThreadProgram α Unit :=
  match call with
  | .copyWorker src dst => Workers.copyWorker launch thread count src dst
  | .copyVolatileWorker src dst => Workers.copyVolatileWorker launch thread count src dst
  | .copyBroadcastVolatileWorker src dst0 dst1 =>
      Workers.copyBroadcastVolatileWorker launch thread count src dst0 dst1
  | .reduceVolatileWorker kScaleAvg own recv dst =>
      Workers.reduceVolatileWorker launch thread count kScaleAvg own recv dst
  | .reduceBroadcastVolatileWorker own recv dst0 dst1 =>
      Workers.reduceBroadcastVolatileWorker launch thread count own recv dst0 dst1
  | .reduceLocalIntoDst kScaleAvg own dst =>
      Workers.reduceLocalIntoDst launch thread count kScaleAvg own dst
  | .reduceLocalBroadcastWorker own dst0 dst1 =>
      Workers.reduceLocalBroadcastWorker launch thread count own dst0 dst1

/-- What the call computes: a copy, or the reduction of the local and the received elements, with
the Avg scale where the worker applies it. -/
def mover (launch : WorkerLaunch α) : WorkerCall → Mover α
  | .copyWorker src dst | .copyVolatileWorker src dst => copyTo src [dst]
  | .copyBroadcastVolatileWorker src dst0 dst1 => copyTo src [dst0, dst1]
  | .reduceVolatileWorker kScaleAvg own recv dst => reduceTo launch kScaleAvg own recv [dst]
  | .reduceBroadcastVolatileWorker own recv dst0 dst1 =>
      reduceTo launch true own recv [dst0, dst1]
  | .reduceLocalIntoDst kScaleAvg own dst => reduceTo launch kScaleAvg own dst [dst]
  | .reduceLocalBroadcastWorker own dst0 dst1 => reduceTo launch true own dst1 [dst0, dst1]

/-- The alignment test the call makes. -/
def check (dtype : DType) : WorkerCall → Bool
  | .copyWorker src dst | .copyVolatileWorker src dst => alignedPacked16 dtype src dst dst
  | .copyBroadcastVolatileWorker src dst0 dst1 => alignedPacked16 dtype src dst0 dst1
  | .reduceVolatileWorker _ own recv dst => alignedPacked16 dtype own recv dst
  | .reduceBroadcastVolatileWorker own recv dst0 dst1 =>
      alignedPacked16 dtype own recv dst0 && alignedPacked16 dtype own recv dst1
  | .reduceLocalIntoDst _ own dst => alignedPacked16 dtype own dst dst
  | .reduceLocalBroadcastWorker own dst0 dst1 => alignedPacked16 dtype own dst0 dst1

/-- The buffers the call only reads. -/
def inputs : WorkerCall → List ℕ
  | .copyWorker src _ | .copyVolatileWorker src _ | .copyBroadcastVolatileWorker src _ _ => [src]
  | .reduceVolatileWorker _ own recv _ | .reduceBroadcastVolatileWorker own recv _ _ => [own, recv]
  | .reduceLocalIntoDst _ own _ | .reduceLocalBroadcastWorker own _ _ => [own]

/-- The buffers the call writes. -/
def outputs : WorkerCall → List ℕ
  | .copyWorker _ dst | .copyVolatileWorker _ dst | .reduceVolatileWorker _ _ _ dst
  | .reduceLocalIntoDst _ _ dst => [dst]
  | .copyBroadcastVolatileWorker _ dst0 dst1 | .reduceBroadcastVolatileWorker _ _ dst0 dst1
  | .reduceLocalBroadcastWorker _ dst0 dst1 => [dst0, dst1]

end WorkerCall

/-- Two buffers of `count` elements do not overlap. -/
def Apart (count first second : ℕ) : Prop := first + count ≤ second ∨ second + count ≤ first

/-- Destinations may coincide, and overlap neither each other nor an input otherwise. -/
structure WorkerCall.Disjoint (call : WorkerCall) (count : ℕ) : Prop where
  inputs : ∀ src ∈ call.inputs, ∀ dst ∈ call.outputs, Apart count src dst
  outputs : ∀ first ∈ call.outputs, ∀ second ∈ call.outputs,
    first = second ∨ Apart count first second

section Calls

variable {launch : WorkerLaunch α} {count : ℕ} {call : WorkerCall}

theorem Apart.ne {first second i j : ℕ} (apart : Apart count first second) (i_lt : i < count)
    (j_lt : j < count) : first + i ≠ second + j := by
  unfold Apart at apart
  omega

theorem WorkerCall.Disjoint.separated (disjoint : call.Disjoint count) :
    (call.mover launch).Separated count := by
  have dests : (call.mover launch).dests = call.outputs := by cases call <;> rfl
  have pointers : ∀ src ∈ (call.mover launch).source.pointers,
      src ∈ call.inputs ∨ src ∈ call.outputs := by
    intro src member
    cases call <;>
      simp only [WorkerCall.mover, copyTo, reduceTo, Source.pointers, List.mem_cons,
        List.not_mem_nil, or_false] at member <;>
      simp only [WorkerCall.inputs, WorkerCall.outputs, List.mem_cons, List.not_mem_nil,
        or_false] <;>
      tauto
  have meets {first second i j : ℕ} (buffers : first = second ∨ Apart count first second)
      (i_lt : i < count) (j_lt : j < count) (same : first + i = second + j) : i = j := by
    rcases buffers with rfl | apart
    · omega
    · exact absurd same (apart.ne i_lt j_lt)
  refine ⟨fun src source dest at_dest i i_lt j j_lt => ?_, fun first at_first second at_second i
    i_lt j j_lt => ?_⟩
  · rw [dests] at at_dest
    rcases pointers src source with input | output
    · exact meets (.inr (disjoint.inputs src input dest at_dest)) i_lt j_lt
    · exact meets (disjoint.outputs src output dest at_dest) i_lt j_lt
  · rw [dests] at at_first at_second
    exact meets (disjoint.outputs first at_first second at_second) i_lt j_lt

/-- The choice all workers make between the float, the packed and the scalar body. -/
def dispatch (launch : WorkerLaunch α) (thread count : ℕ) (mover : Mover α) (check : Bool) :
    ThreadProgram α Unit :=
  match launch.dtype with
  | .float => floatSlice launch thread count mover check
  | .float16 | .bfloat16 =>
      if check then packed16Slice launch thread count mover
      else scalarSlice launch thread count mover

theorem WorkerCall.program_eq (call : WorkerCall) (thread : ℕ) :
    call.program launch count thread =
      dispatch launch thread count (call.mover launch) (call.check launch.dtype) := by
  obtain ⟨dtype, _, _, _, _, _⟩ := launch
  cases dtype <;> cases call <;> rfl

/-- Every worker runs the shared body, whichever body it chooses. -/
theorem WorkerCall.isSlice (unrolled : 0 < launch.kFloat4Unroll) (call : WorkerCall) :
    IsSlice launch (call.mover launch) count (call.program launch count) := by
  refine isSlice_dispatch unrolled (call.check launch.dtype) ?_ ?_ ?_
  · intro checked pointer member
    cases call <;>
      simp only [WorkerCall.check, Bool.and_eq_true, alignedPacked16_iff] at checked <;>
      simp only [WorkerCall.mover, copyTo, reduceTo, Source.pointers, List.cons_append,
        List.nil_append, List.mem_cons, List.not_mem_nil, or_false] at member <;>
      grind
  · intro wide thread
    rw [call.program_eq, dispatch, wide]
  · intro narrow thread
    rw [call.program_eq, dispatch]
    cases dtype : launch.dtype with
    | float => exact absurd dtype narrow
    | float16 => rfl
    | bfloat16 => rfl

/-- A thread of a call moves the indices it owns. -/
theorem WorkerCall.does (unrolled : 0 < launch.kFloat4Unroll) (workers : 0 < launch.nworkers)
    (disjoint : call.Disjoint count) :
    ∃ owner : ℕ → ℕ, (∀ i, owner i < launch.nworkers) ∧ ∀ (memory : ℕ → α) (thread : ℕ),
      (call.mover launch).Does ((call.mover launch).result memory)
        (fun i => i < count ∧ owner i = thread)
        (solo (call.program launch count thread) memory).events := by
  obtain ⟨lanes, unroll, aligned, positive, unrolled, vectors, programs⟩ :=
    call.isSlice unrolled
  refine ⟨owner lanes launch.nworkers count aligned, owner_lt workers aligned,
    fun memory thread => ?_⟩
  rw [programs]
  exact moveSlice_does positive unrolled workers disjoint.separated vectors

/-- Vectorised, unrolled, packed and scalar bodies agree: whatever the element type, alignment,
unroll factor, number of workers and interleaving, each index of each destination is written by
one thread with the scalar result, and nothing else is touched. -/
theorem workers_agree (unrolled : 0 < launch.kFloat4Unroll) (workers : 0 < launch.nworkers)
    {blockDim : ℕ} (fits : launch.nworkers ≤ blockDim) (disjoint : call.Disjoint count)
    {memory : ℕ → α} {schedule : List ℕ} {final : Threads.Block α Sign}
    (execution : StepSystem.exec step
      (.start memory fun thread =>
        if thread < blockDim then call.program launch count thread else pure ()) schedule =
      some final)
    (finished : Finished final) :
    (call.mover launch).Moved count (fun _ => []) memory final := by
  obtain ⟨owner, owner_lt, does⟩ := call.does unrolled workers disjoint
  have acts (thread : ℕ) : (call.mover launch).Acts ((call.mover launch).result memory)
      (fun i => i < count ∧ owner i = thread) [] (solo
        (if thread < blockDim then call.program launch count thread else pure ())
          memory).events := by
    refine ⟨_, rfl, ?_⟩
    split
    · exact does memory thread
    · rename_i outside
      refine does_nothing _ fun i owned => outside ?_
      rw [← owned.2]
      exact Nat.lt_of_lt_of_le (owner_lt i) fits
  exact moved_of_acts disjoint.separated acts (fun thread i owned => owned.1)
    (fun i inside => ⟨owner i, inside, rfl⟩)
    (fun first second i left right => left.2.symm.trans right.2) execution finished

/-- A sum of floats with one worker and the unrolled loop. -/
def sumLaunch : WorkerLaunch ℕ :=
  ⟨.float, 8, 1, .sum, fun _ own recv => own + recv, id⟩

/-- Five elements are one vector and one single element. -/
theorem workers_agree_five :
    ∃ final : Threads.Block ℕ Sign,
      StepSystem.exec step
        (.start (fun cell => cell) fun thread =>
          if thread < 2 then
            (WorkerCall.reduceLocalIntoDst false 0 8).program sumLaunch 5 thread
          else pure ()) (List.replicate 15 0) = some final ∧
        ((WorkerCall.reduceLocalIntoDst false 0 8).mover sumLaunch).Moved 5 (fun _ => [])
          (fun cell => cell) final := by
  have execution :
      StepSystem.exec step
        (.start (fun cell => cell) fun thread =>
          if thread < 2 then
            (WorkerCall.reduceLocalIntoDst false 0 8).program sumLaunch 5 thread
          else pure ()) (List.replicate 15 0) = some _ := rfl
  have disjoint : (WorkerCall.reduceLocalIntoDst false 0 8).Disjoint 5 :=
    ⟨by simp [WorkerCall.inputs, WorkerCall.outputs, Apart], by simp [WorkerCall.outputs]⟩
  refine ⟨_, execution,
    workers_agree (by decide) (by decide) (by decide) disjoint execution fun thread => ?_⟩
  match thread with
  | 0 => rfl
  | 1 => rfl
  | thread + 2 => rfl

end Calls

end Workers
end NanoNccl
