import NanoNccl.Kernel.Coverage

/-!
# Where the rounds of the three kernels write

In one pass of any of the three kernels no two rounds write the same element, and an element
always lies in the part of the share its pass works on. Together with the tilings this makes the
plans of every launch fit for delivery.
-/

namespace NanoNccl
namespace KernelRing

variable {α : Type*} (net : KernelRing α) (launch : Launch α)

/-- Elements of the output buffer of a rank. -/
def outputCount : ℕ :=
  match launch.kind with
  | .allReduce | .reduceScatter => launch.count
  | .allGather => net.kRanks * launch.count

theorem allReducePrim_stores {nranks p : ℕ} (two : 2 ≤ nranks) :
    (allReducePrim nranks p).stores = decide (nranks - 1 ≤ p) := by
  unfold allReducePrim
  split_ifs <;> simp [Prim.stores] <;> omega

theorem allGatherPrim_stores {nranks p : ℕ} :
    (allGatherPrim nranks p).stores = decide (p ≠ 1) := by
  unfold allGatherPrim
  split_ifs <;> simp_all [Prim.stores]

theorem reduceScatterPrim_stores {nranks p : ℕ} (two : 2 ≤ nranks) :
    (reduceScatterPrim nranks p).stores = decide (nranks - 1 ≤ p) := by
  unfold reduceScatterPrim
  split_ifs <;> simp [Prim.stores] <;> omega

/-- Ring chunk of the AllReduce pass at `elemOffset`. -/
def passChunk (part : CbdPart) (elemOffset : ℕ) : ℕ :=
  loopChunk net.kRanks launch.dtype (launch.fifoArgs 0) part (part.partCount - elemOffset)

/-! ## One pass -/

section Pass

variable {net launch} {rank elemOffset p q j : ℕ}

/-- A storing AllReduce round writes inside the ring chunk it works on. -/
theorem allReduceRound_stores {part : CbdPart} (two : 2 ≤ net.kRanks)
    (inside : elemOffset < part.partCount)
    (stores : (net.allReduceRound launch part rank elemOffset p).Stores j) :
    net.kRanks - 1 ≤ p ∧ part.partOffset + elemOffset ≤ j ∧
      j < part.partOffset + part.partCount ∧
      allReduceChunk net.kRanks rank p * net.passChunk launch part elemOffset ≤
        j - (part.partOffset + elemOffset) ∧
      j - (part.partOffset + elemOffset) <
        allReduceChunk net.kRanks rank p * net.passChunk launch part elemOffset +
          net.passChunk launch part elemOffset := by
  obtain ⟨storing, low, high⟩ := stores
  have dst : (net.allReduceRound launch part rank elemOffset p).dst =
      part.partOffset + elemOffset +
        allReduceChunk net.kRanks rank p * net.passChunk launch part elemOffset := if_pos storing
  have work : (net.allReduceRound launch part rank elemOffset p).work =
      nelem (net.passChunk launch part elemOffset) (part.partCount - elemOffset)
        (allReduceChunk net.kRanks rank p * net.passChunk launch part elemOffset) := rfl
  rw [dst, work] at high
  rw [dst] at low
  have late : net.kRanks - 1 ≤ p :=
    of_decide_eq_true ((allReducePrim_stores two).symm.trans storing)
  generalize net.passChunk launch part elemOffset = chunk at low high ⊢
  have short := nelem_le_chunk chunk (part.partCount - elemOffset)
    (allReduceChunk net.kRanks rank p * chunk)
  have fits : allReduceChunk net.kRanks rank p * chunk +
      nelem chunk (part.partCount - elemOffset) (allReduceChunk net.kRanks rank p * chunk) ≤
        part.partCount - elemOffset := nelem_add_le (by omega)
  omega

/-- A storing AllReduce round writes its whole chunk with the value of the round. -/
theorem allReduceRound_stores_of_chunk {part : CbdPart} {c : ℕ} (two : 2 ≤ net.kRanks)
    (late : net.kRanks - 1 ≤ p) (chunk : allReduceChunk net.kRanks rank p = c)
    (low : part.partOffset + elemOffset + c * net.passChunk launch part elemOffset ≤ j)
    (high : j < part.partOffset + elemOffset + c * net.passChunk launch part elemOffset +
      net.passChunk launch part elemOffset)
    (inside : j < part.partOffset + part.partCount) :
    (net.allReduceRound launch part rank elemOffset p).Stores j ∧
      (net.allReduceRound launch part rank elemOffset p).sent
        (j - (net.allReduceRound launch part rank elemOffset p).dst) =
          net.reduceValue launch p rank j := by
  subst chunk
  have storing : (allReducePrim net.kRanks p).stores = true := by
    rw [allReducePrim_stores two]
    exact decide_eq_true late
  have dst : (net.allReduceRound launch part rank elemOffset p).dst =
      part.partOffset + elemOffset +
        allReduceChunk net.kRanks rank p * net.passChunk launch part elemOffset := if_pos storing
  have work : (net.allReduceRound launch part rank elemOffset p).work =
      nelem (net.passChunk launch part elemOffset) (part.partCount - elemOffset)
        (allReduceChunk net.kRanks rank p * net.passChunk launch part elemOffset) := rfl
  have sent (i : ℕ) : (net.allReduceRound launch part rank elemOffset p).sent i =
      net.reduceValue launch p rank (part.partOffset + elemOffset +
        allReduceChunk net.kRanks rank p * net.passChunk launch part elemOffset + i) := rfl
  have piece : j - (part.partOffset + elemOffset +
      allReduceChunk net.kRanks rank p * net.passChunk launch part elemOffset) <
        nelem (net.passChunk launch part elemOffset) (part.partCount - elemOffset)
          (allReduceChunk net.kRanks rank p * net.passChunk launch part elemOffset) :=
    lt_nelem (by omega) (by omega)
  refine ⟨⟨storing, by omega, by omega⟩, ?_⟩
  rw [sent, dst, Nat.add_sub_cancel' low]

/-- Storing AllReduce rounds of a pass work on different chunks. -/
theorem allReduceRound_unique {part : CbdPart} (two : 2 ≤ net.kRanks)
    (inside : elemOffset < part.partCount) (p_lt : p < 2 * net.kRanks - 1)
    (q_lt : q < 2 * net.kRanks - 1)
    (left : (net.allReduceRound launch part rank elemOffset p).Stores j)
    (right : (net.allReduceRound launch part rank elemOffset q).Stores j) : p = q := by
  obtain ⟨leftLate, -, -, leftLow, leftHigh⟩ := allReduceRound_stores two inside left
  obtain ⟨rightLate, -, -, rightLow, rightHigh⟩ := allReduceRound_stores two inside right
  have same := Tiling.cell_of_width_unique leftLow leftHigh rightLow rightHigh
  by_contra distinct
  exact Memory.mod_ne_of_window (rank + 1) (by omega) (by omega) (by omega) (by omega) (by omega)
    same

/-- A storing AllGather round writes the block of the rank whose input it handles. -/
theorem allGatherRound_stores {part : ChannelPart} (bound : part.partOffset + part.partCount ≤
    launch.count) (inside : elemOffset < part.partCount)
    (stores : (net.allGatherRound launch part rank elemOffset p).Stores j) :
    p ≠ 1 ∧ j / launch.count = allGatherSource net.kRanks rank p ∧
      part.partOffset + elemOffset ≤ j % launch.count ∧
      j % launch.count < part.partOffset + elemOffset +
        passWork (launch.fifoArgs 0) part elemOffset := by
  obtain ⟨storing, low, high⟩ := stores
  have dst : (net.allGatherRound launch part rank elemOffset p).dst =
      allGatherSource net.kRanks rank p * launch.count + (part.partOffset + elemOffset) :=
    if_pos storing
  have work : (net.allGatherRound launch part rank elemOffset p).work =
      passWork (launch.fifoArgs 0) part elemOffset := rfl
  rw [dst] at low
  rw [dst, work] at high
  have short := (passWork_le (launch.fifoArgs 0) part elemOffset).2
  obtain ⟨x, rfl⟩ : ∃ x, j = x + allGatherSource net.kRanks rank p * launch.count :=
    ⟨j - allGatherSource net.kRanks rank p * launch.count, by omega⟩
  have positive : 0 < launch.count := by omega
  have small : x < launch.count := by omega
  rw [Nat.add_mul_div_right _ _ positive, Nat.div_eq_of_lt small, Nat.add_mul_mod_self_right,
    Nat.mod_eq_of_lt small]
  refine ⟨?_, by omega, by omega, by omega⟩
  have stores : (allGatherPrim net.kRanks p).stores = decide (p ≠ 1) := allGatherPrim_stores
  exact of_decide_eq_true (stores.symm.trans storing)

/-- A storing AllGather round copies the input of the rank it handles. -/
theorem allGatherRound_stores_of_source {part : ChannelPart} {source x : ℕ} (stores : p ≠ 1)
    (handles : allGatherSource net.kRanks rank p = source)
    (low : part.partOffset + elemOffset ≤ x)
    (high : x < part.partOffset + elemOffset + passWork (launch.fifoArgs 0) part elemOffset) :
    (net.allGatherRound launch part rank elemOffset p).Stores (source * launch.count + x) ∧
      (net.allGatherRound launch part rank elemOffset p).sent
        (source * launch.count + x - (net.allGatherRound launch part rank elemOffset p).dst) =
          launch.input source x := by
  subst handles
  have storing : (allGatherPrim net.kRanks p).stores = true := by
    rw [allGatherPrim_stores]
    exact decide_eq_true stores
  have dst : (net.allGatherRound launch part rank elemOffset p).dst =
      allGatherSource net.kRanks rank p * launch.count + (part.partOffset + elemOffset) :=
    if_pos storing
  have work : (net.allGatherRound launch part rank elemOffset p).work =
      passWork (launch.fifoArgs 0) part elemOffset := rfl
  have sent (i : ℕ) : (net.allGatherRound launch part rank elemOffset p).sent i =
      launch.input (allGatherSource net.kRanks rank p) (part.partOffset + elemOffset + i) := rfl
  refine ⟨⟨storing, by omega, by omega⟩, ?_⟩
  rw [sent, dst, Nat.add_sub_add_left, Nat.add_sub_cancel' low]

theorem allGatherRound_unique {part : ChannelPart} (rank_lt : rank < net.kRanks)
    (bound : part.partOffset + part.partCount ≤ launch.count)
    (inside : elemOffset < part.partCount) (p_lt : p < net.kRanks + 1)
    (q_lt : q < net.kRanks + 1)
    (left : (net.allGatherRound launch part rank elemOffset p).Stores j)
    (right : (net.allGatherRound launch part rank elemOffset q).Stores j) : p = q := by
  obtain ⟨leftStores, leftSource, -, -⟩ := allGatherRound_stores bound inside left
  obtain ⟨rightStores, rightSource, -, -⟩ := allGatherRound_stores bound inside right
  have same := leftSource.symm.trans rightSource
  by_contra distinct
  -- The rank's own block is handled in round 0, as if it came in round 1.
  have source (p : ℕ) : allGatherSource net.kRanks rank p =
      (rank + net.kRanks + 1 - (if p = 0 then 1 else p)) % net.kRanks := by
    unfold allGatherSource
    split
    · rw [Nat.add_sub_cancel, Nat.add_mod_right, Nat.mod_eq_of_lt rank_lt]
    · rfl
  rw [source, source] at same
  refine Memory.mod_ne_of_window (rank + 1) ?_ ?_ ?_ ?_ ?_ same <;> split_ifs <;> omega

/-- Only the last ReduceScatter round of a pass stores. -/
theorem reduceScatterRound_stores {part : ChannelPart} (two : 2 ≤ net.kRanks)
    (stores : (net.reduceScatterRound launch part rank elemOffset p).Stores j) :
    net.kRanks - 1 ≤ p ∧ part.partOffset + elemOffset ≤ j ∧
      j < part.partOffset + elemOffset + passWork (launch.fifoArgs 0) part elemOffset := by
  obtain ⟨storing, low, high⟩ := stores
  have dst : (net.reduceScatterRound launch part rank elemOffset p).dst =
      part.partOffset + elemOffset := if_pos storing
  have work : (net.reduceScatterRound launch part rank elemOffset p).work =
      passWork (launch.fifoArgs 0) part elemOffset := rfl
  rw [dst] at low
  rw [dst, work] at high
  exact ⟨of_decide_eq_true ((reduceScatterPrim_stores two).symm.trans storing), low, high⟩

/-- The last ReduceScatter round writes its slot-sized piece of the rank's own chunk. -/
theorem reduceScatterRound_stores_last {part : ChannelPart} (two : 2 ≤ net.kRanks)
    (rank_lt : rank < net.kRanks) (low : part.partOffset + elemOffset ≤ j)
    (high : j < part.partOffset + elemOffset + passWork (launch.fifoArgs 0) part elemOffset) :
    (net.reduceScatterRound launch part rank elemOffset (net.kRanks - 1)).Stores j ∧
      (net.reduceScatterRound launch part rank elemOffset (net.kRanks - 1)).sent
        (j - (net.reduceScatterRound launch part rank elemOffset (net.kRanks - 1)).dst) =
          net.reduceValue launch (net.kRanks - 1) rank (rank * launch.count + j) := by
  have storing : (reduceScatterPrim net.kRanks (net.kRanks - 1)).stores = true := by
    rw [reduceScatterPrim_stores two]
    exact decide_eq_true le_rfl
  have dst : (net.reduceScatterRound launch part rank elemOffset (net.kRanks - 1)).dst =
      part.partOffset + elemOffset := if_pos storing
  have work : (net.reduceScatterRound launch part rank elemOffset (net.kRanks - 1)).work =
      passWork (launch.fifoArgs 0) part elemOffset := rfl
  have own : reduceScatterChunk net.kRanks rank (net.kRanks - 1) = rank := by
    unfold reduceScatterChunk
    rw [show rank + net.kRanks - 1 - (net.kRanks - 1) = rank by omega, Nat.mod_eq_of_lt rank_lt]
  have sent (i : ℕ) :
      (net.reduceScatterRound launch part rank elemOffset (net.kRanks - 1)).sent i =
        net.reduceValue launch (net.kRanks - 1) rank
          (rank * launch.count + (part.partOffset + elemOffset) + i) := by
    show net.reduceValue launch _ _ (reduceScatterChunk net.kRanks rank (net.kRanks - 1) *
      launch.count + (part.partOffset + elemOffset) + i) = _
    rw [own]
  refine ⟨⟨storing, by omega, by omega⟩, ?_⟩
  rw [sent, dst, Nat.add_assoc, Nat.add_sub_cancel' low]

end Pass

/-! ## Rounds of any launch -/

section Launch

variable {net launch} {id : BlockId} {elemOffset p q j : ℕ}

theorem roundAt_work_le (ranks : 0 < net.kRanks) :
    (net.roundAt launch id elemOffset p).work ≤ stepElems kFifoBytes launch.dtype := by
  unfold roundAt
  cases launch.kind with
  | allReduce =>
      refine (nelem_le_chunk _ _ _).trans ?_
      exact loopChunk_le ranks (vectorElems_dvd_chunkCount _ _ _ _ _)
        (vectorElems_dvd_slotElems launch.dtype)
  | allGather => exact (passWork_le (launch.fifoArgs id.1) _ _).1
  | reduceScatter => exact (passWork_le (launch.fifoArgs id.1) _ _).1

theorem roundAt_sound (id_rank : id.1 < net.kRanks) (inside : p < net.rounds launch) :
    net.SoundRound launch id.1 (net.roundAt launch id elemOffset p) := by
  unfold rounds at inside
  unfold roundAt
  cases kind : launch.kind with
  | allReduce => exact net.allReduceRound_sound launch elemOffset p
  | allGather => exact net.allGatherRound_sound launch id_rank elemOffset p
  | reduceScatter =>
      simp only [kind] at inside
      exact net.reduceScatterRound_sound launch elemOffset inside

/-- A round writes where its pass works, in the share of its channel and in the buffer. -/
theorem roundAt_region (two : 2 ≤ net.kRanks) (id_rank : id.1 < net.kRanks)
    (id_channel : id.2 < net.kChannels)
    (inside : elemOffset < (net.share launch id.2).partCount)
    (stores : (net.roundAt launch id elemOffset p).Stores j) :
    (net.share launch id.2).partOffset + elemOffset ≤ j % launch.count ∧
      j % launch.count < (net.share launch id.2).partOffset + elemOffset +
        net.advance launch id.2 elemOffset ∧
      j % launch.count < (net.share launch id.2).partOffset + (net.share launch id.2).partCount ∧
      j < net.outputCount launch := by
  have bound := (net.shares launch (by omega)).inside id.2 id_channel
  unfold roundAt at stores
  unfold share at inside bound ⊢
  unfold advance outputCount
  cases kind : launch.kind with
  | allReduce =>
      simp only [kind] at stores inside bound ⊢
      obtain ⟨late, low, high, chunkLow, chunkHigh⟩ := allReduceRound_stores two inside stores
      have chunk : (allReduceChunk net.kRanks id.1 p + 1) *
          net.passChunk launch (net.cbdPart launch id.2) elemOffset ≤
            net.kRanks * net.passChunk launch (net.cbdPart launch id.2) elemOffset :=
        Nat.mul_le_mul_right _ (Nat.mod_lt _ (by omega))
      rw [Nat.add_mul, Nat.one_mul] at chunk
      unfold passChunk at chunk chunkHigh
      rw [Nat.mod_eq_of_lt (by omega)]
      omega
  | allGather =>
      simp only [kind] at stores inside bound ⊢
      obtain ⟨-, source, low, high⟩ := allGatherRound_stores bound inside stores
      have short := (passWork_le (launch.fifoArgs 0) (net.channelPart launch id.2) elemOffset).2
      refine ⟨low, high, by omega, ?_⟩
      have rank : j / launch.count < net.kRanks := by
        rw [source]
        unfold allGatherSource
        split
        · exact id_rank
        · exact Nat.mod_lt _ (by omega)
      exact (Nat.div_lt_iff_lt_mul (by omega)).mp rank
  | reduceScatter =>
      simp only [kind] at stores inside bound ⊢
      obtain ⟨-, low, high⟩ := reduceScatterRound_stores two stores
      have short := (passWork_le (launch.fifoArgs 0) (net.channelPart launch id.2) elemOffset).2
      rw [Nat.mod_eq_of_lt (by omega)]
      omega

theorem roundAt_unique (two : 2 ≤ net.kRanks) (id_rank : id.1 < net.kRanks)
    (id_channel : id.2 < net.kChannels)
    (inside : elemOffset < (net.share launch id.2).partCount) (p_lt : p < net.rounds launch)
    (q_lt : q < net.rounds launch) (left : (net.roundAt launch id elemOffset p).Stores j)
    (right : (net.roundAt launch id elemOffset q).Stores j) : p = q := by
  have bound := (net.shares launch (by omega)).inside id.2 id_channel
  unfold roundAt at left right
  unfold share at inside bound
  unfold rounds at p_lt q_lt
  cases kind : launch.kind with
  | allReduce =>
      simp only [kind] at left right inside p_lt q_lt
      exact allReduceRound_unique two inside p_lt q_lt left right
  | allGather =>
      simp only [kind] at left right inside bound p_lt q_lt
      exact allGatherRound_unique id_rank bound inside p_lt q_lt left right
  | reduceScatter =>
      simp only [kind] at left right p_lt q_lt
      have leftLate := (reduceScatterRound_stores two left).1
      have rightLate := (reduceScatterRound_stores two right).1
      omega

/-- The pass and the round an entry belongs to. -/
theorem mem_plan (ranks : 0 < net.kRanks) (id_channel : id.2 < net.kChannels) {entry : Entry α}
    (planned : entry ∈ net.plan launch id) :
    ∃ elemOffset < (net.share launch id.2).partCount, ∃ p < net.rounds launch, ∃ time,
      entry ∈ (net.roundAt launch id elemOffset p).entries launch.dtype
        (stepElems kFifoBytes launch.dtype) time := by
  obtain ⟨offsets, passes, small, -, -⟩ := net.exists_passOffsets launch ranks id_channel
  unfold plan at planned
  rw [passes] at planned
  obtain ⟨offset, member, p, inside, time, found⟩ := mem_planEntries planned
  exact ⟨offset, small offset member, p, inside, time, found⟩

theorem planOk (two : 2 ≤ net.kRanks) : PlanOk net launch where
  fits := by
    intro id entry planned _
    obtain ⟨offset, -, p, -, time, found⟩ := mem_planEntries planned
    obtain ⟨piece, fits, -⟩ := Round.mem_entries found
    have slot : (net.roundAt launch id offset p).work ≤ stepElems kFifoBytes launch.dtype :=
      roundAt_work_le (by omega)
    omega
  sound := by
    intro id id_rank entry planned i
    obtain ⟨offset, -, p, inside, time, found⟩ := mem_planEntries planned
    obtain ⟨piece, -, prim, src, -, recv, sent⟩ := Round.mem_entries found
    have sound : net.SoundRound launch id.1 (net.roundAt launch id offset p) :=
      roundAt_sound id_rank inside
    rw [sent, recv, prim, src, sound, Nat.add_assoc]
  apart := by
    intro id id_rank id_channel
    obtain ⟨offsets, passes, small, sorted, -⟩ :=
      net.exists_passOffsets launch (by omega) id_channel
    unfold plan
    rw [passes]
    refine planEntries_apart ?_ ?_
    · intro offset member p p_lt q q_lt j left right
      exact roundAt_unique two id_rank id_channel (small offset member) p_lt q_lt left right
    · refine sorted.imp_of_mem fun {left right} leftIn rightIn ordered p _ q _ j both => ?_
      have leftRegion := roundAt_region two id_rank id_channel (small left leftIn) both.1
      have rightRegion := roundAt_region two id_rank id_channel (small right rightIn) both.2
      omega
  channels := by
    intro rank channel other rank_lt channel_lt other_lt distinct left leftIn right rightIn j both
    obtain ⟨leftOffset, leftSmall, p, -, _, leftFound⟩ := mem_plan (by omega) channel_lt leftIn
    obtain ⟨rightOffset, rightSmall, q, -, _, rightFound⟩ := mem_plan (by omega) other_lt rightIn
    obtain ⟨leftLow, -, leftHigh, -⟩ := roundAt_region two rank_lt channel_lt leftSmall
      (Round.stores_of_covers leftFound both.1)
    obtain ⟨rightLow, -, rightHigh, -⟩ := roundAt_region two rank_lt other_lt rightSmall
      (Round.stores_of_covers rightFound both.2)
    exact distinct ((net.shares launch (by omega)).unique (j % launch.count) channel other
      channel_lt other_lt (le_of_add_le_left leftLow) leftHigh (le_of_add_le_left rightLow)
      rightHigh)

/-- Nothing outside the output buffer is written. -/
theorem covers_lt (two : 2 ≤ net.kRanks) (id_rank : id.1 < net.kRanks)
    (id_channel : id.2 < net.kChannels) {entry : Entry α} (planned : entry ∈ net.plan launch id)
    (covers : entry.op.Covers j) : j < net.outputCount launch := by
  obtain ⟨offset, small, p, -, _, found⟩ := mem_plan (by omega) id_channel planned
  exact (roundAt_region two id_rank id_channel small
    (Round.stores_of_covers found covers)).2.2.2

end Launch

end KernelRing
end NanoNccl
