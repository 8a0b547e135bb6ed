import NanoNccl.Kernel.Control
import NanoNccl.Kernel.Rounds
import NanoNccl.Partition

/-!
# Both ends of an edge

The plan of a launch is the schedule of its kernel; what a block sends is, slice for slice, what
its successor receives. The same holds for any list of launches laid one after the other in
logical time.
-/

namespace NanoNccl

variable {α : Type*}

namespace KernelRing

variable (net : KernelRing α) (launch : Launch α)

/-! ## The plan of a launch -/

/-- AllReduce share of a channel. -/
def cbdPart (channel : ℕ) : CbdPart :=
  NanoNccl.cbdPart net.kRanks net.kChannels launch.dtype launch.count channel

/-- ReduceScatter and AllGather share of a channel. -/
def channelPart (channel : ℕ) : ChannelPart :=
  NanoNccl.channelPart net.kChannels launch.count channel

/-- Element offsets of the passes of a channel block. -/
def passOffsets (channel : ℕ) : Option (List ℕ) :=
  if net.emptyShare launch channel then some []
  else
    match launch.kind with
    | .allReduce =>
        let part := net.cbdPart launch channel
        elemOffsets part.partCount
          (fun elemOffset => net.kRanks *
            loopChunk net.kRanks launch.dtype (launch.fifoArgs 0) part
              (part.partCount - elemOffset)) launch.count 0
    | .allGather | .reduceScatter =>
        let part := net.channelPart launch channel
        elemOffsets part.partCount (passWork (launch.fifoArgs 0) part) launch.count 0

/-- Rounds of one pass. -/
def rounds : ℕ :=
  match launch.kind with
  | .allReduce => 2 * net.kRanks - 1
  | .allGather => net.kRanks + 1
  | .reduceScatter => net.kRanks

/-- A round of a launch. -/
def roundAt (id : BlockId) (elemOffset p : ℕ) : Round α :=
  match launch.kind with
  | .allReduce => net.allReduceRound launch (net.cbdPart launch id.2) id.1 elemOffset p
  | .allGather => net.allGatherRound launch (net.channelPart launch id.2) id.1 elemOffset p
  | .reduceScatter => net.reduceScatterRound launch (net.channelPart launch id.2) id.1 elemOffset p

/-- The plan of a launch on one block. -/
def plan (id : BlockId) : List (Entry α) :=
  planEntries launch.dtype (stepElems kFifoBytes launch.dtype) (net.rounds launch)
    (net.roundAt launch id) ((net.passOffsets launch id.2).getD [])

/-- A block with an empty share returns at once. -/
theorem kernel_of_emptyShare {id : BlockId} (share : net.emptyShare launch id.2 = true) :
    net.kernel launch id = some [] := by
  unfold emptyShare at share
  unfold kernel
  cases kind : launch.kind with
  | allReduce =>
      simp only [kind, decide_eq_true_eq] at share
      exact if_pos share
  | allGather =>
      simp only [kind, decide_eq_true_eq] at share
      exact if_pos share
  | reduceScatter =>
      simp only [kind, decide_eq_true_eq] at share
      exact if_pos share

/-- The kernel of a launch, as one pass after the other. -/
theorem kernel_eq {id : BlockId} (id_rank : id.1 < net.kRanks) (two : 2 ≤ net.kRanks) :
    net.kernel launch id = (net.passOffsets launch id.2).map fun offsets =>
      offsets.flatMap fun offset => (List.range (net.rounds launch)).flatMap fun p =>
        ((net.roundAt launch id offset p).entries launch.dtype
          (stepElems kFifoBytes launch.dtype) 0).map Entry.op := by
  unfold passOffsets
  cases share : net.emptyShare launch id.2 with
  | true =>
      have returns := net.kernel_of_emptyShare launch share
      simp [returns]
  | false =>
      cases kind : launch.kind with
      | allReduce =>
          have works : ¬ ((net.cbdPart launch id.2).partCount = 0 ∨
              (net.cbdPart launch id.2).chunkCount = 0) := by
            simpa [emptyShare, kind, KernelRing.cbdPart] using share
          simp only [kernel, kind, ringSimpleKernel, roundAt, rounds, Bool.false_eq_true, if_false]
          refine (if_neg works).trans ?_
          refine congrArg (Option.map · _) (funext fun offsets => ?_)
          exact List.flatMap_congr fun offset _ => net.ringSimplePass_eq launch id_rank two offset
      | allGather =>
          have works : ¬ (net.channelPart launch id.2).partCount = 0 := by
            simpa [emptyShare, kind, KernelRing.channelPart] using share
          simp only [kernel, kind, ringSimpleAllGatherKernel, roundAt, rounds, Bool.false_eq_true,
            if_false]
          refine (if_neg works).trans ?_
          refine congrArg (Option.map · _) (funext fun offsets => ?_)
          exact List.flatMap_congr fun offset _ => net.ringSimpleAllGatherPass_eq launch two offset
      | reduceScatter =>
          have works : ¬ (net.channelPart launch id.2).partCount = 0 := by
            simpa [emptyShare, kind, KernelRing.channelPart] using share
          simp only [kernel, kind, ringSimpleReduceScatterKernel, roundAt, rounds,
            Bool.false_eq_true, if_false]
          refine (if_neg works).trans ?_
          refine congrArg (Option.map · _) (funext fun offsets => ?_)
          exact List.flatMap_congr fun offset _ =>
            net.ringSimpleReduceScatterPass_eq launch id_rank two offset

/-- The plan carries exactly the slice operations of the kernel. -/
theorem map_op_plan {id : BlockId} (id_rank : id.1 < net.kRanks) (two : 2 ≤ net.kRanks) :
    (net.plan launch id).map Entry.op = net.ops launch id := by
  unfold plan ops
  rw [map_op_planEntries, net.kernel_eq launch id_rank two]
  cases net.passOffsets launch id.2 with
  | none => simp
  | some offsets => rfl

/-- What a block sends in a launch is what its successor receives. -/
theorem outgoing_plan {id : BlockId} (id_rank : id.1 < net.kRanks) (two : 2 ≤ net.kRanks) :
    outgoing (net.plan launch id) = incoming (net.plan launch (net.succ id)) := by
  unfold plan
  rw [show (net.succ id).2 = id.2 from rfl]
  cases kind : launch.kind with
  | allReduce =>
      rw [show net.rounds launch = 2 * net.kRanks - 2 + 1 by simp only [rounds, kind]; omega]
      rw [show net.roundAt launch id = _ from funext₂ fun _ _ => by rw [roundAt, kind],
        show net.roundAt launch (net.succ id) = _ from funext₂ fun _ _ => by rw [roundAt, kind]]
      refine outgoing_planEntries ?_ ?_ ?_
      · exact fun offset _ p inside => net.allReduceRound_feeds launch id_rank two offset inside
      · intro offset
        simp [allReduceRound, allReducePrim_sends two]
      · intro offset
        simp [allReduceRound, allReducePrim_recvs]
  | allGather =>
      rw [show net.rounds launch = net.kRanks + 1 by simp only [rounds, kind]]
      rw [show net.roundAt launch id = _ from funext₂ fun _ _ => by rw [roundAt, kind],
        show net.roundAt launch (net.succ id) = _ from funext₂ fun _ _ => by rw [roundAt, kind]]
      refine outgoing_planEntries ?_ ?_ ?_
      · exact fun offset _ p inside => net.allGatherRound_feeds launch two offset inside
      · intro offset
        simp only [allGatherRound, allGatherPrim]
        rw [if_neg (by omega), if_neg (by omega), if_neg (by omega)]
        rfl
      · intro offset
        simp [allGatherRound, allGatherPrim, Prim.recvs]
  | reduceScatter =>
      rw [show net.rounds launch = net.kRanks - 1 + 1 by simp only [rounds, kind]; omega]
      rw [show net.roundAt launch id = _ from funext₂ fun _ _ => by rw [roundAt, kind],
        show net.roundAt launch (net.succ id) = _ from funext₂ fun _ _ => by rw [roundAt, kind]]
      refine outgoing_planEntries ?_ ?_ ?_
      · exact fun offset _ p inside => net.reduceScatterRound_feeds launch id_rank offset inside
      · intro offset
        simp only [reduceScatterRound, reduceScatterPrim]
        rw [if_neg (by omega), if_neg (by omega)]
        rfl
      · intro offset
        simp [reduceScatterRound, reduceScatterPrim, Prim.recvs]

/-- Logical time one launch takes. -/
def span : ℕ := 2 * (launch.count * net.rounds launch)

theorem timed_plan (id : BlockId) : Timed (net.plan launch id) :=
  timed_planEntries _ _ _ _ _

theorem time_mem_plan {id : BlockId} {entry : Entry α} (member : entry ∈ net.plan launch id) :
    entry.time < net.span launch := by
  have bound := time_mem_planEntries member
  have short : ((net.passOffsets launch id.2).getD []).length ≤ launch.count := by
    unfold passOffsets
    split
    · simp
    · split
      all_goals
        rename_i kind
        cases loops : elemOffsets _ _ _ _ with
        | none => simp
        | some offsets => exact length_elemOffsets_le loops
  have := Nat.mul_le_mul_right (net.rounds launch) short
  unfold span
  omega

end KernelRing
end NanoNccl
