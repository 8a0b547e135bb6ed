import NanoNccl.Kernel.Plan

/-!
# Rounds of the three kernels

Each kernel pass is a fixed sequence of rounds around the ring. In every round a rank works on
the chunk its predecessor worked on one round before, which is what makes the two ends of an
edge agree.
-/

namespace NanoNccl
namespace KernelRing

variable {α : Type*} (net : KernelRing α) (launch : Launch α)

/-- Value a primitive produces from local input `j` and a received element. -/
def produce (rank : ℕ) (prim : Prim) (j : ℕ) (recv : α) : α :=
  match prim with
  | .directSend | .copyWorker => launch.input rank j
  | .recvReduceSend => net.apply launch.redop (launch.input rank j) recv
  | .recvReduceCopySend | .recvReduceCopy =>
      net.finish launch.redop (net.apply launch.redop (launch.input rank j) recv)
  | .recvCopySend | .directRecv => recv

/-- Value of element `j` a rank produces in round `p`: a growing reduction, scaled in round
`kRanks - 1` and handed on unchanged after it. -/
def reduceValue : ℕ → ℕ → ℕ → α
  | 0, rank, j => launch.input rank j
  | p + 1, rank, j =>
      let recv := reduceValue p ((rank + net.kRanks - 1) % net.kRanks) j
      if p + 1 < net.kRanks - 1 then net.apply launch.redop (launch.input rank j) recv
      else if p + 1 = net.kRanks - 1 then
        net.finish launch.redop (net.apply launch.redop (launch.input rank j) recv)
      else recv

/-! ## AllReduce -/

/-- Primitive of round `p` of an AllReduce pass. -/
def allReducePrim (nranks p : ℕ) : Prim :=
  if p = 0 then .directSend
  else if p < nranks - 1 then .recvReduceSend
  else if p = nranks - 1 then .recvReduceCopySend
  else if p < 2 * nranks - 2 then .recvCopySend
  else .directRecv

/-- Chunk a rank works on in round `p` of an AllReduce pass. -/
def allReduceChunk (nranks rank p : ℕ) : ℕ := (rank + 2 * nranks - 1 - p) % nranks

/-- Round `p` of the AllReduce pass at `elemOffset`. -/
def allReduceRound (part : CbdPart) (rank elemOffset p : ℕ) : Round α :=
  let remCount := part.partCount - elemOffset
  let loopChunk := loopChunk net.kRanks launch.dtype (launch.fifoArgs rank) part remCount
  let chunkOffset := allReduceChunk net.kRanks rank p * loopChunk
  let offset := part.partOffset + elemOffset + chunkOffset
  let prim := allReducePrim net.kRanks p
  { prim
    src := if prim.loads then offset else 0
    dst := if prim.stores then offset else 0
    work := nelem loopChunk remCount chunkOffset
    recv := fun i =>
      net.reduceValue launch (p - 1) ((rank + net.kRanks - 1) % net.kRanks) (offset + i)
    sent := fun i => net.reduceValue launch p rank (offset + i) }

theorem ringSimplePass_eq {part : CbdPart} {rank : ℕ} (rank_lt : rank < net.kRanks)
    (two : 2 ≤ net.kRanks) (elemOffset : ℕ) :
    ringSimplePass net.kRanks launch.dtype (launch.fifoArgs rank) part elemOffset =
      (List.range (2 * net.kRanks - 1)).flatMap fun p =>
        ((net.allReduceRound launch part rank elemOffset p).entries launch.dtype
          (launch.fifoArgs rank).stepElems 0).map Entry.op := by
  obtain ⟨m, ranks⟩ : ∃ m, net.kRanks = m + 2 := ⟨net.kRanks - 2, by omega⟩
  have unsliced (p : ℕ) : (net.allReduceRound launch part rank elemOffset p).prim ≠
      .copyWorker := by
    simp only [allReduceRound, allReducePrim]
    split_ifs <;> simp
  simp only [Round.map_op_entries (launch.fifoArgs rank) launch.dtype 0 _ (unsliced _)]
  rw [show 2 * net.kRanks - 1 = 1 + m + 1 + m + 1 by omega]
  simp only [List.range_add, List.flatMap_append, List.flatMap_map, List.range_one,
    List.flatMap_cons, List.flatMap_nil, List.append_nil]
  have chunk_eq (p q : ℕ) (shift : rank + 2 * (m + 2) - 1 - p = q ∨
      rank + 2 * (m + 2) - 1 - p = q + (m + 2)) :
      allReduceChunk (m + 2) rank p = q % (m + 2) := by
    unfold allReduceChunk
    rcases shift with shift | shift
    · rw [shift]
    · rw [shift, Nat.add_mod_right]
  unfold ringSimplePass
  simp only [ranks, List.range'_eq_map_range, List.flatMap_map, Nat.add_sub_cancel]
  refine congrArg₂ _ (congrArg₂ _ (congrArg₂ _ (congrArg₂ _ ?_ ?_) ?_) ?_) ?_
  · have chunk := chunk_eq 0 (rank + (m + 2) - 1) (by omega)
    simp [allReduceRound, ranks, allReducePrim, chunk, directSend, Prim.loads, Prim.stores,
      Launch.fifoArgs]
  · refine List.flatMap_congr fun i member => ?_
    have i_lt : i < m := List.mem_range.mp member
    have chunk := chunk_eq (1 + i) (rank + (m + 2) - (2 + i)) (by omega)
    have prim : allReducePrim (m + 2) (1 + i) = .recvReduceSend := by
      unfold allReducePrim
      rw [if_neg (by omega), if_pos (by omega)]
    simp [allReduceRound, ranks, prim, chunk, recvReduceSend, Prim.loads, Prim.stores,
      Launch.fifoArgs]
  · have chunk := chunk_eq (1 + m) rank (by omega)
    have prim : allReducePrim (m + 2) (1 + m) = .recvReduceCopySend := by
      unfold allReducePrim
      rw [if_neg (by omega), if_neg (by omega), if_pos (by omega)]
    rw [Nat.mod_eq_of_lt (by omega)] at chunk
    simp [allReduceRound, ranks, prim, chunk, recvReduceCopySend, Prim.loads, Prim.stores,
      Launch.fifoArgs]
  · refine List.flatMap_congr fun i member => ?_
    have i_lt : i < m := List.mem_range.mp member
    have chunk := chunk_eq (1 + m + 1 + i) (rank + (m + 2) - (1 + i)) (by omega)
    have prim : allReducePrim (m + 2) (1 + m + 1 + i) = .recvCopySend := by
      unfold allReducePrim
      rw [if_neg (by omega), if_neg (by omega), if_neg (by omega), if_pos (by omega)]
    simp [allReduceRound, ranks, prim, chunk, recvCopySend, Prim.loads, Prim.stores,
      Launch.fifoArgs]
  · have chunk := chunk_eq (1 + m + 1 + m) (rank + 1) (by omega)
    have prim : allReducePrim (m + 2) (1 + m + 1 + m) = .directRecv := by
      unfold allReducePrim
      rw [if_neg (by omega), if_neg (by omega), if_neg (by omega), if_neg (by omega)]
    simp [allReduceRound, ranks, prim, chunk, directRecv, Prim.loads, Prim.stores,
      Launch.fifoArgs]

theorem allReduceChunk_succ {nranks p : ℕ} (rank : ℕ) (inside : p < 2 * nranks - 2) :
    allReduceChunk nranks ((rank + 1) % nranks) (p + 1) = allReduceChunk nranks rank p := by
  unfold allReduceChunk
  have shifted : (rank + 1) % nranks + 2 * nranks - 1 - (p + 1) =
      (rank + 1) % nranks + (2 * nranks - 2 - p) := by omega
  rw [shifted, Nat.mod_add_mod]
  congr 1
  omega

theorem pred_rank_succ {rank : ℕ} (rank_lt : rank < net.kRanks) :
    ((rank + 1) % net.kRanks + net.kRanks - 1) % net.kRanks = rank := by
  rw [Nat.add_sub_assoc (by omega), Nat.mod_add_mod,
    show rank + 1 + (net.kRanks - 1) = rank + net.kRanks by omega, Nat.add_mod_right,
    Nat.mod_eq_of_lt rank_lt]

theorem allReducePrim_sends {nranks p : ℕ} (two : 2 ≤ nranks) :
    (allReducePrim nranks p).sends = decide (p < 2 * nranks - 2) := by
  unfold allReducePrim
  split_ifs <;> simp [Prim.sends] <;> omega

theorem allReducePrim_recvs {nranks p : ℕ} :
    (allReducePrim nranks p).recvs = decide (p ≠ 0) := by
  unfold allReducePrim
  split_ifs <;> simp_all [Prim.recvs]

/-- Every AllReduce round but the last feeds the successor's next round. -/
theorem allReduceRound_feeds {part : CbdPart} {rank : ℕ} (rank_lt : rank < net.kRanks)
    (two : 2 ≤ net.kRanks) (elemOffset : ℕ) {p : ℕ} (inside : p < 2 * net.kRanks - 2) :
    (net.allReduceRound launch part rank elemOffset p).Feeds
      (net.allReduceRound launch part ((rank + 1) % net.kRanks) elemOffset (p + 1)) := by
  have chunk := allReduceChunk_succ rank inside
  constructor
  case agree =>
    simp [allReduceRound, allReducePrim_sends two, allReducePrim_recvs, inside]
  case work =>
    intro _
    simp only [allReduceRound, chunk]
    rfl
  case data =>
    intro _
    simp only [allReduceRound, chunk, Nat.add_sub_cancel, net.pred_rank_succ rank_lt]
    rfl

/-- What a round produces is what its primitive computes from what the round receives. -/
def SoundRound (rank : ℕ) (round : Round α) : Prop :=
  ∀ i, round.sent i = net.produce launch rank round.prim (round.src + i) (round.recv i)

theorem allReduceRound_sound {part : CbdPart} {rank : ℕ} (elemOffset p : ℕ) :
    net.SoundRound launch rank (net.allReduceRound launch part rank elemOffset p) := by
  intro i
  simp only [allReduceRound, allReducePrim]
  cases p with
  | zero => simp [reduceValue, produce, Prim.loads]
  | succ p =>
      simp only [reduceValue, Nat.add_sub_cancel, Nat.add_eq_zero_iff, one_ne_zero, and_false,
        if_false]
      split_ifs <;> simp_all [produce, Prim.loads]

/-! ## ReduceScatter -/

/-- Primitive of round `p` of a ReduceScatter pass. -/
def reduceScatterPrim (nranks p : ℕ) : Prim :=
  if p = 0 then .directSend
  else if p < nranks - 1 then .recvReduceSend
  else .recvReduceCopy

/-- Chunk a rank works on in round `p` of a ReduceScatter pass. -/
def reduceScatterChunk (nranks rank p : ℕ) : ℕ := (rank + nranks - 1 - p) % nranks

/-- Round `p` of the ReduceScatter pass at `elemOffset`. -/
def reduceScatterRound (part : ChannelPart) (rank elemOffset p : ℕ) : Round α :=
  let rankPartOffset := part.partOffset + elemOffset
  let src := reduceScatterChunk net.kRanks rank p * launch.count + rankPartOffset
  let prim := reduceScatterPrim net.kRanks p
  { prim
    src
    dst := if prim.stores then rankPartOffset else 0
    work := passWork (launch.fifoArgs rank) part elemOffset
    recv := fun i =>
      net.reduceValue launch (p - 1) ((rank + net.kRanks - 1) % net.kRanks) (src + i)
    sent := fun i => net.reduceValue launch p rank (src + i) }

theorem ringSimpleReduceScatterPass_eq {part : ChannelPart} {rank : ℕ}
    (rank_lt : rank < net.kRanks) (two : 2 ≤ net.kRanks) (elemOffset : ℕ) :
    ringSimpleReduceScatterPass net.kRanks launch.dtype (launch.fifoArgs rank) part elemOffset =
      (List.range net.kRanks).flatMap fun p =>
        ((net.reduceScatterRound launch part rank elemOffset p).entries launch.dtype
          (launch.fifoArgs rank).stepElems 0).map Entry.op := by
  obtain ⟨m, ranks⟩ : ∃ m, net.kRanks = m + 2 := ⟨net.kRanks - 2, by omega⟩
  have unsliced (p : ℕ) : (net.reduceScatterRound launch part rank elemOffset p).prim ≠
      .copyWorker := by
    simp only [reduceScatterRound, reduceScatterPrim]
    split_ifs <;> simp
  simp only [Round.map_op_entries (launch.fifoArgs rank) launch.dtype 0 _ (unsliced _)]
  rw [show List.range net.kRanks = List.range (1 + m + 1) by rw [ranks]; congr 1; omega]
  simp only [List.range_add, List.flatMap_append, List.flatMap_map, List.range_one,
    List.flatMap_cons, List.flatMap_nil, List.append_nil]
  unfold ringSimpleReduceScatterPass
  simp only [ranks, List.range'_eq_map_range, List.flatMap_map, Nat.add_sub_cancel]
  refine congrArg₂ _ (congrArg₂ _ ?_ ?_) ?_
  · simp [reduceScatterRound, ranks, reduceScatterPrim, reduceScatterChunk, directSend,
      Prim.stores, Launch.fifoArgs]
  · refine List.flatMap_congr fun i member => ?_
    have i_lt : i < m := List.mem_range.mp member
    have chunk : reduceScatterChunk (m + 2) rank (1 + i) =
        (rank + (m + 2) - (2 + i)) % (m + 2) := by
      unfold reduceScatterChunk
      congr 1
      omega
    have prim : reduceScatterPrim (m + 2) (1 + i) = .recvReduceSend := by
      unfold reduceScatterPrim
      rw [if_neg (by omega), if_pos (by omega)]
    simp [reduceScatterRound, ranks, prim, chunk, recvReduceSend, Prim.stores, Launch.fifoArgs]
  · have chunk : reduceScatterChunk (m + 2) rank (1 + m) = rank := by
      unfold reduceScatterChunk
      rw [show rank + (m + 2) - 1 - (1 + m) = rank by omega, Nat.mod_eq_of_lt (by omega)]
    have prim : reduceScatterPrim (m + 2) (1 + m) = .recvReduceCopy := by
      unfold reduceScatterPrim
      rw [if_neg (by omega), if_neg (by omega)]
    simp [reduceScatterRound, ranks, prim, chunk, recvReduceCopy, Prim.stores, Launch.fifoArgs]

theorem reduceScatterChunk_succ {nranks p : ℕ} (rank : ℕ) (inside : p < nranks - 1) :
    reduceScatterChunk nranks ((rank + 1) % nranks) (p + 1) =
      reduceScatterChunk nranks rank p := by
  unfold reduceScatterChunk
  have shifted : (rank + 1) % nranks + nranks - 1 - (p + 1) =
      (rank + 1) % nranks + (nranks - 2 - p) := by omega
  rw [shifted, Nat.mod_add_mod]
  congr 1
  omega

/-- Every ReduceScatter round but the last feeds the successor's next round. -/
theorem reduceScatterRound_feeds {part : ChannelPart} {rank : ℕ} (rank_lt : rank < net.kRanks)
    (elemOffset : ℕ) {p : ℕ} (inside : p < net.kRanks - 1) :
    (net.reduceScatterRound launch part rank elemOffset p).Feeds
      (net.reduceScatterRound launch part ((rank + 1) % net.kRanks) elemOffset (p + 1)) := by
  have chunk := reduceScatterChunk_succ rank inside
  constructor
  case agree =>
    simp only [reduceScatterRound, reduceScatterPrim]
    split_ifs <;> first | omega | rfl | contradiction
  case work =>
    intro _
    rfl
  case data =>
    intro _
    simp only [reduceScatterRound, chunk, Nat.add_sub_cancel, net.pred_rank_succ rank_lt]

theorem reduceScatterRound_sound {part : ChannelPart} {rank : ℕ} (elemOffset : ℕ) {p : ℕ}
    (inside : p < net.kRanks) :
    net.SoundRound launch rank (net.reduceScatterRound launch part rank elemOffset p) := by
  intro i
  simp only [reduceScatterRound, reduceScatterPrim]
  cases p with
  | zero => simp [reduceValue, produce]
  | succ p =>
      simp only [reduceValue, Nat.add_sub_cancel, Nat.add_eq_zero_iff, one_ne_zero, and_false,
        if_false]
      split_ifs <;> first | omega | simp [produce]

/-! ## AllGather -/

/-- Primitive of round `p` of an AllGather pass. -/
def allGatherPrim (nranks p : ℕ) : Prim :=
  if p = 0 then .copyWorker
  else if p = 1 then .directSend
  else if p < nranks then .recvCopySend
  else .directRecv

/-- Rank whose input a rank handles in round `p` of an AllGather pass. -/
def allGatherSource (nranks rank p : ℕ) : ℕ :=
  if p = 0 then rank else (rank + nranks + 1 - p) % nranks

/-- Round `p` of the AllGather pass at `elemOffset`. -/
def allGatherRound (part : ChannelPart) (rank elemOffset p : ℕ) : Round α :=
  let inputOffset := part.partOffset + elemOffset
  let source := allGatherSource net.kRanks rank p
  let prim := allGatherPrim net.kRanks p
  { prim
    src := if prim.loads then inputOffset else 0
    dst := if prim.stores then source * launch.count + inputOffset else 0
    work := passWork (launch.fifoArgs rank) part elemOffset
    recv := fun i => launch.input source (inputOffset + i)
    sent := fun i => launch.input source (inputOffset + i) }

theorem ringSimpleAllGatherPass_eq {part : ChannelPart} {rank : ℕ} (two : 2 ≤ net.kRanks)
    (elemOffset : ℕ) :
    ringSimpleAllGatherPass net.kRanks launch.dtype (launch.fifoArgs rank) part elemOffset =
      (List.range (net.kRanks + 1)).flatMap fun p =>
        ((net.allGatherRound launch part rank elemOffset p).entries launch.dtype
          (launch.fifoArgs rank).stepElems 0).map Entry.op := by
  obtain ⟨m, ranks⟩ : ∃ m, net.kRanks = m + 2 := ⟨net.kRanks - 2, by omega⟩
  rw [show List.range (net.kRanks + 1) = List.range (1 + 1 + m + 1) by
    rw [ranks]; congr 1; omega]
  simp only [List.range_add, List.flatMap_append, List.flatMap_map, List.range_one,
    List.flatMap_cons, List.flatMap_nil, List.append_nil, List.map_cons, List.map_nil,
    Nat.add_zero]
  unfold ringSimpleAllGatherPass
  simp only [ranks, List.range'_eq_map_range, List.flatMap_map, Nat.add_sub_cancel]
  refine congrArg₂ _ (congrArg₂ _ (congrArg₂ _ ?_ ?_) ?_) ?_
  · simp [allGatherRound, allGatherPrim, allGatherSource, copyWorker, Round.entries, Round.cut,
      Prim.loads, Prim.stores, Launch.fifoArgs]
  · rw [Round.map_op_entries (launch.fifoArgs rank) launch.dtype 0]
    · simp [allGatherRound, ranks, allGatherPrim, directSend, Prim.loads, Prim.stores]
    · simp [allGatherRound, ranks, allGatherPrim]
  · refine List.flatMap_congr fun i member => ?_
    have i_lt : i < m := List.mem_range.mp member
    have source : allGatherSource (m + 2) rank (1 + 1 + i) =
        (rank + (m + 2) - (1 + i)) % (m + 2) := by
      unfold allGatherSource
      rw [if_neg (by omega)]
      congr 1
      omega
    have prim : allGatherPrim (m + 2) (1 + 1 + i) = .recvCopySend := by
      unfold allGatherPrim
      rw [if_neg (by omega), if_neg (by omega), if_pos (by omega)]
    rw [Round.map_op_entries (launch.fifoArgs rank) launch.dtype 0]
    · simp [allGatherRound, ranks, prim, source, recvCopySend, Prim.loads, Prim.stores,
        Launch.fifoArgs]
    · simp [allGatherRound, ranks, prim]
  · have source : allGatherSource (m + 2) rank (1 + 1 + m) = (rank + 1) % (m + 2) := by
      unfold allGatherSource
      rw [if_neg (by omega)]
      congr 1
      omega
    have prim : allGatherPrim (m + 2) (1 + 1 + m) = .directRecv := by
      unfold allGatherPrim
      rw [if_neg (by omega), if_neg (by omega), if_neg (by omega)]
    rw [Round.map_op_entries (launch.fifoArgs rank) launch.dtype 0]
    · simp [allGatherRound, ranks, prim, source, directRecv, Prim.loads, Prim.stores,
        Launch.fifoArgs]
    · simp [allGatherRound, ranks, prim]

theorem allGatherSource_succ {nranks rank p : ℕ} (positive : p ≠ 0) (inside : p < nranks) :
    allGatherSource nranks ((rank + 1) % nranks) (p + 1) = allGatherSource nranks rank p := by
  unfold allGatherSource
  rw [if_neg (by omega), if_neg positive]
  have shifted : (rank + 1) % nranks + nranks + 1 - (p + 1) =
      (rank + 1) % nranks + (nranks - p) := by omega
  rw [shifted, Nat.mod_add_mod]
  congr 1
  omega

/-- Every AllGather round but the last feeds the successor's next round. -/
theorem allGatherRound_feeds {part : ChannelPart} {rank : ℕ} (two : 2 ≤ net.kRanks)
    (elemOffset : ℕ) {p : ℕ} (inside : p < net.kRanks) :
    (net.allGatherRound launch part rank elemOffset p).Feeds
      (net.allGatherRound launch part ((rank + 1) % net.kRanks) elemOffset (p + 1)) := by
  constructor
  case agree =>
    simp only [allGatherRound, allGatherPrim]
    split_ifs <;> first | omega | rfl | contradiction
  case work =>
    intro _
    rfl
  case data =>
    intro sends
    have positive : p ≠ 0 := by
      rintro rfl
      simp [allGatherRound, allGatherPrim, Prim.sends] at sends
    simp only [allGatherRound, allGatherSource_succ positive inside]

theorem allGatherRound_sound {part : ChannelPart} {rank : ℕ} (rank_lt : rank < net.kRanks)
    (elemOffset p : ℕ) :
    net.SoundRound launch rank (net.allGatherRound launch part rank elemOffset p) := by
  intro i
  by_cases copying : p = 0
  · subst copying
    simp [allGatherRound, allGatherPrim, allGatherSource, produce, Prim.loads]
  by_cases sending : p = 1
  · subst sending
    simp [allGatherRound, allGatherPrim, allGatherSource, produce, Prim.loads,
      Nat.mod_eq_of_lt rank_lt]
  simp only [allGatherRound, allGatherPrim, copying, sending, if_false]
  split_ifs <;> rfl

end KernelRing
end NanoNccl
