import Mathlib.Tactic
import NanoNccl.Kernel.Schedule
import NanoNccl.Lib.Tiling

/-!
# The splits partition the data

Channels, loop passes, ring chunks and slices each cut their range into consecutive pieces that
do not overlap and leave nothing out.
-/

namespace NanoNccl

theorem le_divUp_mul (value : ℕ) {divisor : ℕ} (positive : 0 < divisor) :
    value ≤ divUp value divisor * divisor := by
  rw [divUp]
  have quotient := Nat.div_add_mod (value + divisor - 1) divisor
  have remainder := Nat.mod_lt (value + divisor - 1) positive
  rw [Nat.mul_comm] at quotient
  omega

theorem divUp_le {value divisor bound : ℕ} (small : value ≤ bound * divisor)
    (positive : 0 < divisor) : divUp value divisor ≤ bound := by
  rw [divUp]
  have : value + divisor - 1 < (bound + 1) * divisor := by
    rw [Nat.add_mul, Nat.one_mul]
    omega
  exact Nat.lt_succ_iff.mp ((Nat.div_lt_iff_lt_mul positive).mpr this)

theorem le_alignUp (value : ℕ) {alignment : ℕ} (positive : 0 < alignment) :
    value ≤ alignUp value alignment :=
  le_divUp_mul value positive

/-- Rounding up stays below an aligned bound. -/
theorem alignUp_le {value alignment bound : ℕ} (small : value ≤ bound)
    (aligned : alignment ∣ bound) (positive : 0 < alignment) :
    alignUp value alignment ≤ bound := by
  obtain ⟨pieces, rfl⟩ := aligned
  rw [alignUp, Nat.mul_comm alignment pieces]
  exact Nat.mul_le_mul_right alignment (divUp_le (by rwa [Nat.mul_comm]) positive)

/-! ## Slices of a chunk -/

/-- The two slices of a chunk are long enough for it. -/
theorem le_two_mul_sliceElems (dtype : DType) (count nominalStepElems : ℕ) :
    count ≤ 2 * sliceElems dtype count nominalStepElems := by
  have enough : ∀ vectorElems, 0 < vectorElems →
      count ≤ 2 * (divUp count (vectorElems * 2) * vectorElems) := by
    intro vectorElems positive
    have whole := le_divUp_mul count (show 0 < vectorElems * 2 by omega)
    calc
      count ≤ divUp count (vectorElems * 2) * (vectorElems * 2) := whole
      _ = 2 * (divUp count (vectorElems * 2) * vectorElems) := by ring
  have byCount := enough (kVectorBytes / dtype.size) (by cases dtype <;> decide)
  have steps : kVectorBytes / dtype.size * kChunkSteps / kSliceSteps =
      kVectorBytes / dtype.size * 2 := by
    cases dtype <;> decide
  simp only [sliceElems, steps]
  split <;> omega

theorem nelem_eq_min (chunkCount remCount chunkOffset : ℕ) :
    nelem chunkCount remCount chunkOffset = min chunkCount (remCount - chunkOffset) := by
  rw [nelem]
  split
  · omega
  · dsimp only
    split <;> omega

theorem nelem_le_chunk (chunkCount remCount chunkOffset : ℕ) :
    nelem chunkCount remCount chunkOffset ≤ chunkCount := by
  rw [nelem_eq_min]
  exact min_le_left _ _

theorem nelem_le_remCount (chunkCount remCount chunkOffset : ℕ) :
    nelem chunkCount remCount chunkOffset ≤ remCount := by
  rw [nelem_eq_min]
  exact (min_le_right _ _).trans (Nat.sub_le _ _)

theorem nelem_add_le {chunkCount remCount chunkOffset : ℕ}
    (nonempty : 0 < nelem chunkCount remCount chunkOffset) :
    chunkOffset + nelem chunkCount remCount chunkOffset ≤ remCount := by
  rw [nelem_eq_min] at nonempty ⊢
  omega

theorem lt_nelem {chunkCount remCount chunkOffset i : ℕ} (inChunk : i < chunkCount)
    (inside : chunkOffset + i < remCount) : i < nelem chunkCount remCount chunkOffset := by
  rw [nelem_eq_min]
  exact lt_min inChunk (by omega)

theorem mem_sliceLoop {sliceSize count iterations offset : ℕ} {slice : ℕ × ℕ}
    (member : slice ∈ sliceLoop sliceSize count iterations offset) :
    0 < slice.2 ∧ offset ≤ slice.1 ∧ slice.2 ≤ sliceSize ∧ slice.1 + slice.2 ≤ count := by
  induction iterations generalizing offset with
  | zero => simp [sliceLoop] at member
  | succ iterations ih =>
      simp only [sliceLoop] at member
      generalize worked : (if offset < count then nelem sliceSize count offset else 0) = work
        at member
      split at member
      · have later := ih member
        omega
      · rename_i nonempty
        rcases List.mem_cons.mp member with rfl | member
        · split at worked
          · subst worked
            have := nelem_le_chunk sliceSize count offset
            have := nelem_add_le (Nat.pos_of_ne_zero nonempty)
            simp only
            omega
          · omega
        · have later := ih member
          omega

/-- Slices follow one another. -/
theorem pairwise_sliceLoop (sliceSize count iterations offset : ℕ) :
    (sliceLoop sliceSize count iterations offset).Pairwise fun left right =>
      left.1 + left.2 ≤ right.1 := by
  induction iterations generalizing offset with
  | zero => exact List.Pairwise.nil
  | succ iterations ih =>
      simp only [sliceLoop]
      generalize worked : (if offset < count then nelem sliceSize count offset else 0) = work
      split
      · exact ih _
      · refine List.pairwise_cons.mpr ⟨?_, ih _⟩
        intro later member
        have after := (mem_sliceLoop member).2.1
        have short : work ≤ sliceSize := by
          subst worked
          split
          · exact nelem_le_chunk sliceSize count offset
          · omega
        simp only
        omega

/-- Enough slices cover the rest of the chunk. -/
theorem exists_mem_sliceLoop {sliceSize count iterations offset i : ℕ} (low : offset ≤ i)
    (inside : i < count) (enough : i < offset + iterations * sliceSize) :
    ∃ slice ∈ sliceLoop sliceSize count iterations offset,
      slice.1 ≤ i ∧ i < slice.1 + slice.2 := by
  induction iterations generalizing offset with
  | zero => omega
  | succ iterations ih =>
      have started : offset < count := by omega
      simp only [sliceLoop, if_pos started]
      by_cases here : i < offset + sliceSize
      · have work : i - offset < nelem sliceSize count offset := lt_nelem (by omega) (by omega)
        rw [if_neg (by omega)]
        exact ⟨_, List.mem_cons_self, low, by simp only; omega⟩
      · rw [Nat.add_mul, Nat.one_mul] at enough
        obtain ⟨slice, member, found⟩ := ih (show offset + sliceSize ≤ i by omega) (by omega)
        refine ⟨slice, ?_, found⟩
        split
        · exact member
        · exact List.mem_cons_of_mem _ member

theorem exists_mem_slices (dtype : DType) (nominalStepElems : ℕ) {count i : ℕ}
    (inside : i < count) :
    ∃ slice ∈ slices dtype nominalStepElems count, slice.1 ≤ i ∧ i < slice.1 + slice.2 := by
  have long := le_two_mul_sliceElems dtype count nominalStepElems
  refine exists_mem_sliceLoop (Nat.zero_le i) inside ?_
  simp only [show kChunkSteps / kSliceSteps = 2 from rfl]
  omega

/-! ## The element loop -/

/-- The passes from one value of `elem_offset` to the end of the loop. -/
inductive Passes (bound : ℕ) (advance : ℕ → ℕ) : ℕ → List ℕ → Prop
  | done {elemOffset : ℕ} (past : bound ≤ elemOffset) : Passes bound advance elemOffset []
  | next {elemOffset : ℕ} {later : List ℕ} (inside : elemOffset < bound)
      (rest : Passes bound advance (elemOffset + advance elemOffset) later) :
      Passes bound advance elemOffset (elemOffset :: later)

section ElementLoop

variable {bound fuel elemOffset : ℕ} {advance : ℕ → ℕ} {offsets : List ℕ}

theorem elemOffsets_zero : elemOffsets bound advance 0 elemOffset =
    if elemOffset < bound then none else some [] := rfl

theorem elemOffsets_succ : elemOffsets bound advance (fuel + 1) elemOffset =
    if elemOffset < bound then
      (elemOffsets bound advance fuel (elemOffset + advance elemOffset)).map (elemOffset :: ·)
    else some [] := rfl

/-- A loop that ends has made its passes, each on its own fuel. -/
theorem passes_of_elemOffsets (loops : elemOffsets bound advance fuel elemOffset = some offsets) :
    Passes bound advance elemOffset offsets ∧ offsets.length ≤ fuel := by
  induction fuel generalizing elemOffset offsets with
  | zero =>
      rw [elemOffsets_zero] at loops
      split at loops
      · cases loops
      · next past =>
          obtain rfl := Option.some.inj loops
          exact ⟨.done (Nat.le_of_not_lt past), le_rfl⟩
  | succ fuel ih =>
      rw [elemOffsets_succ] at loops
      split at loops
      · next inside =>
          obtain ⟨later, found, rfl⟩ := Option.map_eq_some_iff.mp loops
          obtain ⟨rest, short⟩ := ih found
          exact ⟨.next inside rest, Nat.succ_le_succ short⟩
      · next past =>
          obtain rfl := Option.some.inj loops
          exact ⟨.done (Nat.le_of_not_lt past), Nat.zero_le _⟩

theorem length_elemOffsets_le (loops : elemOffsets bound advance fuel elemOffset = some offsets) :
    offsets.length ≤ fuel :=
  (passes_of_elemOffsets loops).2

/-- The loop ends when every pass advances and there is a pass for each element. -/
theorem elemOffsets_isSome (advances : ∀ offset < bound, 0 < advance offset)
    (enough : bound ≤ elemOffset + fuel) :
    (elemOffsets bound advance fuel elemOffset).isSome = true := by
  induction fuel generalizing elemOffset with
  | zero =>
      rw [elemOffsets_zero, if_neg (by omega)]
      rfl
  | succ fuel ih =>
      rw [elemOffsets_succ]
      split
      · next inside =>
          have positive := advances elemOffset inside
          rw [Option.isSome_map]
          exact ih (by omega)
      · rfl

namespace Passes

variable {offset : ℕ}

theorem lt (passes : Passes bound advance elemOffset offsets) (member : offset ∈ offsets) :
    offset < bound := by
  induction passes with
  | done past => cases member
  | next inside rest ih =>
      rcases List.mem_cons.mp member with rfl | member
      · exact inside
      · exact ih member

theorem le (passes : Passes bound advance elemOffset offsets) (member : offset ∈ offsets) :
    elemOffset ≤ offset := by
  induction passes with
  | done past => cases member
  | next inside rest ih =>
      rcases List.mem_cons.mp member with rfl | member
      · exact le_rfl
      · exact (Nat.le_add_right _ _).trans (ih member)

theorem pairwise (passes : Passes bound advance elemOffset offsets) :
    offsets.Pairwise fun left right => left + advance left ≤ right := by
  induction passes with
  | done past => exact List.Pairwise.nil
  | next inside rest ih => exact List.pairwise_cons.mpr ⟨fun _ member => rest.le member, ih⟩

theorem exists_mem (passes : Passes bound advance elemOffset offsets) {point : ℕ}
    (low : elemOffset ≤ point) (high : point < bound) :
    ∃ offset ∈ offsets, offset ≤ point ∧ point < offset + advance offset := by
  induction passes with
  | done past => omega
  | @next elemOffset later inside rest ih =>
      by_cases here : point < elemOffset + advance elemOffset
      · exact ⟨elemOffset, List.mem_cons_self, low, here⟩
      · obtain ⟨offset, member, covered⟩ := ih (by omega)
        exact ⟨offset, List.mem_cons_of_mem _ member, covered⟩

end Passes

theorem mem_elemOffsets_lt (loops : elemOffsets bound advance fuel elemOffset = some offsets)
    {offset : ℕ} (member : offset ∈ offsets) : offset < bound :=
  (passes_of_elemOffsets loops).1.lt member

/-- Passes follow one another. -/
theorem pairwise_elemOffsets (loops : elemOffsets bound advance fuel elemOffset = some offsets) :
    offsets.Pairwise fun left right => left + advance left ≤ right :=
  (passes_of_elemOffsets loops).1.pairwise

/-- Passes cover the loop range. -/
theorem exists_mem_elemOffsets (loops : elemOffsets bound advance fuel elemOffset = some offsets)
    {point : ℕ} (low : elemOffset ≤ point) (high : point < bound) :
    ∃ offset ∈ offsets, offset ≤ point ∧ point < offset + advance offset :=
  (passes_of_elemOffsets loops).1.exists_mem low high

end ElementLoop

/-! ## Ring chunks -/

section Chunks

variable {dtype : DType}

theorem vectorElems_pos (dtype : DType) : 0 < kVectorBytes / dtype.size := by
  cases dtype <;> decide

/-- Ring chunks of a share are whole vectors. -/
theorem vectorElems_dvd_chunkCount (kRanks kChannels : ℕ) (dtype : DType) (count channel : ℕ) :
    kVectorBytes / dtype.size ∣ (cbdPart kRanks kChannels dtype count channel).chunkCount := by
  have grain : kVectorBytes / dtype.size ∣ simpleGrainElems dtype := by
    cases dtype <;> decide
  by_cases empty : (cbdPart kRanks kChannels dtype count channel).partCount = 0
  · have chunk : (cbdPart kRanks kChannels dtype count channel).chunkCount = 0 := if_pos empty
    rw [chunk]
    exact dvd_zero _
  · have chunk : (cbdPart kRanks kChannels dtype count channel).chunkCount =
        divUp _ (simpleGrainElems dtype) * simpleGrainElems dtype := if_neg empty
    rw [chunk]
    exact dvd_mul_of_dvd_right grain _

/-- A share has a ring chunk exactly when it has elements. -/
theorem chunkCount_pos {kRanks kChannels count channel : ℕ} (ranks : 0 < kRanks)
    (nonempty : (cbdPart kRanks kChannels dtype count channel).partCount ≠ 0) :
    0 < (cbdPart kRanks kChannels dtype count channel).chunkCount := by
  have grain : 0 < simpleGrainElems dtype := by
    cases dtype <;> decide
  have some := le_divUp_mul (cbdPart kRanks kChannels dtype count channel).partCount ranks
  have whole := le_alignUp
    (divUp (cbdPart kRanks kChannels dtype count channel).partCount kRanks) grain
  have chunk : (cbdPart kRanks kChannels dtype count channel).chunkCount =
      alignUp (divUp (cbdPart kRanks kChannels dtype count channel).partCount kRanks)
        (simpleGrainElems dtype) := if_neg nonempty
  rw [chunk]
  refine lt_of_lt_of_le (Nat.pos_of_ne_zero fun zero => ?_) whole
  rw [zero, Nat.zero_mul] at some
  omega

/-- The chunk of a pass never outgrows a slot, also when the last pass is re-aligned. -/
theorem loopChunk_le {nranks remCount : ℕ} {args : FifoArgs} {part : CbdPart}
    (ranks : 0 < nranks) (chunks : kVectorBytes / dtype.size ∣ part.chunkCount)
    (slots : kVectorBytes / dtype.size ∣ args.slotElems) :
    loopChunk nranks dtype args part remCount ≤ args.slotElems := by
  have aligned : kVectorBytes / dtype.size ∣ loopChunkElems part.chunkCount args.slotElems := by
    unfold loopChunkElems
    split
    · exact chunks
    · exact slots
  have slot : loopChunkElems part.chunkCount args.slotElems ≤ args.slotElems := by
    unfold loopChunkElems
    split <;> omega
  unfold loopChunk
  simp only
  split
  · rename_i short
    refine le_trans (alignUp_le (divUp_le ?_ ranks) aligned (vectorElems_pos dtype)) slot
    rw [Nat.mul_comm]
    exact short.le
  · exact slot

theorem loopChunk_pos {nranks remCount : ℕ} {args : FifoArgs} {part : CbdPart}
    (ranks : 0 < nranks) (left : 0 < remCount) (chunks : 0 < part.chunkCount)
    (slots : 0 < args.slotElems) : 0 < loopChunk nranks dtype args part remCount := by
  unfold loopChunk
  simp only
  split
  · have some := le_divUp_mul remCount ranks
    have whole := le_alignUp (divUp remCount nranks) (vectorElems_pos dtype)
    refine lt_of_lt_of_le (Nat.pos_of_ne_zero fun zero => ?_) whole
    rw [zero, Nat.zero_mul] at some
    omega
  · unfold loopChunkElems
    split <;> omega

/-- A pass of AllGather or ReduceScatter fits a slot and what is left of the share. -/
theorem passWork_le (args : FifoArgs) (part : ChannelPart) (elemOffset : ℕ) :
    passWork args part elemOffset ≤ args.slotElems ∧
      passWork args part elemOffset ≤ part.partCount - elemOffset := by
  unfold passWork
  simp only
  split <;> omega

end Chunks

/-! ## Channels -/

/-- The channel shares tile the elements below `count`. -/
structure Shares (kChannels count : ℕ) (part : ℕ → ChannelPart) : Prop where
  inside : ∀ channel < kChannels,
    (part channel).partOffset + (part channel).partCount ≤ count
  cover : ∀ j < count, ∃ channel < kChannels,
    (part channel).partOffset ≤ j ∧ j < (part channel).partOffset + (part channel).partCount
  unique : ∀ j left right, left < kChannels → right < kChannels →
    (part left).partOffset ≤ j → j < (part left).partOffset + (part left).partCount →
      (part right).partOffset ≤ j → j < (part right).partOffset + (part right).partCount →
        left = right

/-- Channel shares cut at ordered boundaries. -/
structure CutAt (bound : ℕ → ℕ) (kChannels count : ℕ) (part : ℕ → ChannelPart) : Prop where
  mono : ∀ first second, first ≤ second → second ≤ kChannels → bound first ≤ bound second
  first : bound 0 = 0
  last : bound kChannels = count
  share : ∀ channel < kChannels,
    part channel = ⟨bound channel, bound (channel + 1) - bound channel⟩

namespace CutAt

variable {bound : ℕ → ℕ} {kChannels count : ℕ} {part : ℕ → ChannelPart}

theorem start (cut : CutAt bound kChannels count part) {channel : ℕ}
    (channel_lt : channel < kChannels) : (part channel).partOffset = bound channel := by
  rw [cut.share channel channel_lt]

theorem stop (cut : CutAt bound kChannels count part) {channel : ℕ}
    (channel_lt : channel < kChannels) :
    (part channel).partOffset + (part channel).partCount = bound (channel + 1) := by
  have ordered := cut.mono channel (channel + 1) (Nat.le_succ channel) channel_lt
  rw [cut.share channel channel_lt]
  exact Nat.add_sub_cancel' ordered

theorem shares (cut : CutAt bound kChannels count part) : Shares kChannels count part where
  inside := by
    intro channel channel_lt
    rw [cut.stop channel_lt, ← cut.last]
    exact cut.mono _ _ channel_lt le_rfl
  cover := by
    intro j inside
    have first := cut.first
    have last := cut.last
    obtain ⟨channel, channel_lt, low, high⟩ := Tiling.exists_cell bound (by omega)
      (show j < bound kChannels by omega)
    exact ⟨channel, channel_lt, (cut.start channel_lt).symm ▸ low,
      (cut.stop channel_lt).symm ▸ high⟩
  unique := by
    intro j left right left_lt right_lt leftLow leftHigh rightLow rightHigh
    rw [cut.stop left_lt] at leftHigh
    rw [cut.stop right_lt] at rightHigh
    rw [cut.start left_lt] at leftLow
    rw [cut.start right_lt] at rightLow
    exact Tiling.cell_unique cut.mono left_lt right_lt leftLow leftHigh rightLow rightHigh

/-- The shares follow one another in the order of the channels. -/
theorem chain (cut : CutAt bound kChannels count part) :
    Tiling.Chain 0
      ((List.range kChannels).map fun channel =>
        ((part channel).partOffset, (part channel).partCount)) count := by
  have cells := Tiling.Chain.of_bounds cut.mono
  rw [cut.first, cut.last] at cells
  convert cells using 1
  refine List.map_congr_left fun channel member => ?_
  rw [cut.share channel (List.mem_range.mp member)]

end CutAt

theorem channelPart_cutAt {kChannels : ℕ} (positive : 0 < kChannels) (count : ℕ) :
    CutAt (fun channel => count * channel / kChannels) kChannels count
      (channelPart kChannels count) where
  mono first second ordered _ := Nat.div_le_div_right (Nat.mul_le_mul_left count ordered)
  first := by simp
  last := Nat.mul_div_cancel count positive
  share channel _ := rfl

theorem channelPart_shares {kChannels : ℕ} (positive : 0 < kChannels) (count : ℕ) :
    Shares kChannels count (channelPart kChannels count) :=
  (channelPart_cutAt positive count).shares

theorem cbdPart_cutAt {kChannels : ℕ} (kRanks : ℕ) (dtype : DType) (positive : 0 < kChannels)
    (count : ℕ) :
    ∃ bound, CutAt bound kChannels count fun channel =>
      (cbdPart kRanks kChannels dtype count channel).toChannelPart := by
  generalize vector : kVectorBytes / dtype.size = vectorElems
  -- Boundaries inside are rounded down; the last one is the count itself.
  let bound := fun channel =>
    if channel = kChannels then count * channel / kChannels
    else count * channel / kChannels / vectorElems * vectorElems
  have aligned (value : ℕ) : value / vectorElems * vectorElems ≤ value := Nat.div_mul_le_self _ _
  refine ⟨bound, ?_, ?_, ?_, ?_⟩
  · intro first second ordered inside
    have exact : count * first / kChannels ≤ count * second / kChannels :=
      Nat.div_le_div_right (Nat.mul_le_mul_left count ordered)
    by_cases lastSecond : second = kChannels
    · simp only [bound, if_pos lastSecond]
      split
      · exact exact
      · exact (aligned _).trans exact
    · simp only [bound, if_neg lastSecond, if_neg (show first ≠ kChannels by omega)]
      exact Nat.mul_le_mul_right _ (Nat.div_le_div_right exact)
  · simp [bound, positive.ne]
  · simp only [bound, if_true]
    exact Nat.mul_div_cancel count positive
  · intro channel channel_lt
    simp only [cbdPart, bound, vector, if_neg channel_lt.ne, ne_eq, ite_not]

theorem cbdPart_shares {kChannels : ℕ} (kRanks : ℕ) (dtype : DType) (positive : 0 < kChannels)
    (count : ℕ) :
    Shares kChannels count fun channel =>
      (cbdPart kRanks kChannels dtype count channel).toChannelPart := by
  obtain ⟨bound, cut⟩ := cbdPart_cutAt kRanks dtype positive count
  exact cut.shares

/-- What an AllReduce share promises besides tiling the buffer. -/
structure AlignedShare (kRanks kChannels : ℕ) (dtype : DType) (channel : ℕ) (part : CbdPart) :
    Prop where
  offset : kVectorBytes / dtype.size ∣ part.partOffset
  inner_count : channel + 1 ≠ kChannels → kVectorBytes / dtype.size ∣ part.partCount
  chunk : simpleGrainElems dtype ∣ part.chunkCount
  chunk_eq_zero_iff : part.chunkCount = 0 ↔ part.partCount = 0
  chunk_covers : part.partCount ≤ part.chunkCount * kRanks

theorem cbdPart_alignedShare {kRanks : ℕ} (kChannels : ℕ) (dtype : DType) (ranks : 0 < kRanks)
    (count channel : ℕ) :
    AlignedShare kRanks kChannels dtype channel (cbdPart kRanks kChannels dtype count channel) := by
  generalize part_eq : cbdPart kRanks kChannels dtype count channel = part
  have chunk_eq : part.chunkCount = if part.partCount = 0 then 0 else
      alignUp (divUp part.partCount kRanks) (simpleGrainElems dtype) := by
    rw [← part_eq]
    rfl
  refine ⟨?_, ?_, ?_, ?_, ?_⟩
  · rw [← part_eq]
    exact Nat.dvd_mul_left _ _
  · intro inner
    rw [← part_eq]
    simp only [cbdPart, if_pos inner]
    exact Nat.dvd_sub (Nat.dvd_mul_left _ _) (Nat.dvd_mul_left _ _)
  · rw [chunk_eq]
    split
    · exact dvd_zero _
    · exact Nat.dvd_mul_left _ _
  · refine ⟨fun zero => ?_, fun empty => by rw [chunk_eq, if_pos empty]⟩
    by_contra nonempty
    rw [← part_eq] at zero nonempty
    have positive := chunkCount_pos ranks nonempty
    omega
  · rw [chunk_eq]
    split
    · omega
    · have grain : 0 < simpleGrainElems dtype := by
        cases dtype <;> decide
      calc
        part.partCount ≤ divUp part.partCount kRanks * kRanks := le_divUp_mul _ ranks
        _ ≤ alignUp (divUp part.partCount kRanks) (simpleGrainElems dtype) * kRanks :=
          Nat.mul_le_mul_right kRanks (le_alignUp _ grain)

end NanoNccl
