import NanoNccl.Communicator.Overflow

/-!
# The splits on machine words

The channel shares of a buffer, and the ring chunks of a share over the passes of
`ring_simple_kernel`, cut their range without gaps or overlaps as long as 64 bits leave room for
rounding the ring chunks up.
-/

namespace NanoNccl
namespace Communicator
namespace Words

open Tiling (Chain Span nonempty)
open WordArith

/-! ### The ring chunks under any arithmetic -/

section Source

variable (arith : Arith)

/-- A ring chunk of a pass of `ring_simple_kernel`: its first element in the share and its
length. -/
def ringChunk (elemOffset remCount loopChunk chunk : ℕ) : Option (ℕ × ℕ) := do
  let chunkOffset ← arith.mul chunk loopChunk
  let start ← arith.add elemOffset chunkOffset
  return (start, nelem loopChunk remCount chunkOffset)

variable (nranks : ℕ) (dtype : DType) (args : FifoArgs) (part : CbdPart)

/-- The ring chunks of a pass of `ring_simple_kernel`, and the next `elem_offset`. -/
def ringChunks (elemOffset : ℕ) : Option (List (ℕ × ℕ) × ℕ) := do
  let remCount ← arith.sub part.partCount elemOffset
  let loopChunk ← loopChunk arith nranks dtype args.slotElems part remCount
  let loopCount ← arith.mul nranks loopChunk
  let chunks ← (List.range nranks).mapM (ringChunk arith elemOffset remCount loopChunk)
  let next ← arith.add elemOffset loopCount
  return (chunks, next)

/-- The ring chunks of the loop over `elem_offset`; none are returned when `fuel` passes do not
leave the loop. -/
def ringLoop : ℕ → ℕ → Option (List (ℕ × ℕ))
  | fuel, elemOffset =>
      if elemOffset < part.partCount then
        match fuel with
        | 0 => none
        | fuel + 1 => do
            let pass ← ringChunks arith nranks dtype args part elemOffset
            let later ← ringLoop fuel pass.2
            return pass.1 ++ later
      else some []

end Source

section Mono

variable {first second : Arith} (refines : first.Refines second)

include refines

theorem ringChunks_mono (nranks : ℕ) (dtype : DType) (args : FifoArgs) (part : CbdPart)
    (elemOffset : ℕ) :
    Refines (ringChunks first nranks dtype args part elemOffset)
      (ringChunks second nranks dtype args part elemOffset) :=
  (refines.sub _ _).bind fun _ => (loopChunk_mono refines _ _ _ _ _).bind fun _ =>
    (refines.mul _ _).bind fun _ =>
      (Refines.mapM fun _ => (refines.mul _ _).bind fun _ =>
        (refines.add _ _).bind fun _ => .refl _).bind fun _ =>
          (refines.add _ _).bind fun _ => .refl _

theorem ringLoop_mono (nranks : ℕ) (dtype : DType) (args : FifoArgs) (part : CbdPart)
    (fuel elemOffset : ℕ) :
    Refines (ringLoop first nranks dtype args part fuel elemOffset)
      (ringLoop second nranks dtype args part fuel elemOffset) := by
  induction fuel generalizing elemOffset with
  | zero =>
      unfold ringLoop
      split <;> exact .refl _
  | succ fuel ih =>
      unfold ringLoop
      split
      · exact (ringChunks_mono refines _ _ _ _ _).bind fun pass =>
          (ih pass.2).bind fun _ => .refl _
      · exact .refl _

end Mono

/-! ### Ring chunks follow one another -/

/-- The first ring chunks of a pass cover what is left of the share, up to their common length. -/
theorem span_ringChunks (elemOffset loopChunk remCount chunks : ℕ) :
    Span elemOffset
      (nonempty ((List.range chunks).map fun chunk =>
        (elemOffset + chunk * loopChunk, nelem loopChunk remCount (chunk * loopChunk))))
      (elemOffset + min remCount (chunks * loopChunk)) := by
  induction chunks with
  | zero =>
      rw [Nat.zero_mul, Nat.min_zero]
      exact Span.nil elemOffset
  | succ chunks ih =>
      rw [List.range_succ, List.map_append, Tiling.nonempty_append, Nat.succ_mul]
      refine ih.append ?_
      simp only [List.map_cons, List.map_nil, Tiling.nonempty_singleton, nelem_eq_min]
      generalize chunks * loopChunk = chunkOffset
      split
      · have next : elemOffset + min remCount (chunkOffset + loopChunk) =
            elemOffset + chunkOffset + min loopChunk (remCount - chunkOffset) := by
          omega
        rw [Nat.min_eq_right (show chunkOffset ≤ remCount by omega), next]
        exact Span.singleton ‹_›
      · have same : min remCount (chunkOffset + loopChunk) = min remCount chunkOffset := by
          omega
        rw [same]
        exact Span.nil _

section Loop

variable {bound nranks elemOffset : ℕ} {dtype : DType} {args : FifoArgs} {part : CbdPart}

theorem ringChunks_checked (ranks : 0 < nranks) (chunks : nranks * part.chunkCount ≤ bound)
    (room : part.partCount + nranks * (kVectorBytes / dtype.size) ≤ bound)
    (started : elemOffset < part.partCount) {loopChunk : ℕ}
    (loopChunk_eq : NanoNccl.loopChunk nranks dtype args part (part.partCount - elemOffset) =
      loopChunk) :
    ringChunks (checked bound) nranks dtype args part elemOffset =
      some ((List.range nranks).map fun chunk => (elemOffset + chunk * loopChunk,
        nelem loopChunk (part.partCount - elemOffset) (chunk * loopChunk)),
          elemOffset + nranks * loopChunk) := by
  have loopCount := mul_loopChunk_le dtype args part (part.partCount - elemOffset) ranks
  rw [loopChunk_eq] at loopCount
  have pieces : nranks ≤ nranks * (kVectorBytes / dtype.size) :=
    Nat.le_mul_of_pos_right nranks (vectorElems_pos dtype)
  have vectors : kVectorBytes / dtype.size ≤ nranks * (kVectorBytes / dtype.size) :=
    Nat.le_mul_of_pos_left _ ranks
  have each : (List.range nranks).mapM
        (ringChunk (checked bound) elemOffset (part.partCount - elemOffset) loopChunk) =
      some ((List.range nranks).map fun chunk => (elemOffset + chunk * loopChunk,
        nelem loopChunk (part.partCount - elemOffset) (chunk * loopChunk))) := by
    refine mapM_eq_some ?_
    intro chunk member
    have below : chunk * loopChunk ≤ nranks * loopChunk :=
      Nat.mul_le_mul_right loopChunk (List.mem_range.mp member).le
    simp only [ringChunk, checked_mul (show chunk * loopChunk ≤ bound by omega),
      checked_add (show elemOffset + chunk * loopChunk ≤ bound by omega), Option.bind_eq_bind,
      Option.bind_some, Option.pure_def]
  simp only [ringChunks, checked_sub started.le (show part.partCount ≤ bound by omega),
    loopChunk_checked ranks chunks (show part.partCount - elemOffset + nranks ≤ bound by omega)
      (show part.partCount - elemOffset + kVectorBytes / dtype.size ≤ bound by omega),
    loopChunk_eq, checked_mul (show nranks * loopChunk ≤ bound by omega), each,
    checked_add (show elemOffset + nranks * loopChunk ≤ bound by omega), Option.bind_eq_bind,
    Option.bind_some, Option.pure_def]

/-- From every `elem_offset` the loop ends, and its ring chunks tile the rest of the share. -/
theorem ringLoop_checked (ranks : 0 < nranks) (chunks : nranks * part.chunkCount ≤ bound)
    (room : part.partCount + nranks * (kVectorBytes / dtype.size) ≤ bound)
    (chunk_eq_zero_iff : part.chunkCount = 0 ↔ part.partCount = 0) (slots : 0 < args.slotElems)
    (elemOffset : ℕ) :
    ∃ pieces,
      (∀ fuel, part.partCount ≤ elemOffset + fuel →
        ringLoop (checked bound) nranks dtype args part fuel elemOffset = some pieces) ∧
      Span (min elemOffset part.partCount) (nonempty pieces) part.partCount := by
  induction remaining : part.partCount - elemOffset using Nat.strong_induction_on
    generalizing elemOffset with
  | _ remaining ih =>
      by_cases started : elemOffset < part.partCount
      · have advances :
            0 < NanoNccl.loopChunk nranks dtype args part (part.partCount - elemOffset) :=
          loopChunk_pos ranks (by omega) (by omega) slots
        generalize loopChunk_eq :
          NanoNccl.loopChunk nranks dtype args part (part.partCount - elemOffset) = loopChunk
          at advances
        have pass := ringChunks_checked ranks chunks room started loopChunk_eq
        have here := span_ringChunks elemOffset loopChunk (part.partCount - elemOffset) nranks
        generalize (List.range nranks).map _ = pieces at pass here
        have loopCount : 0 < nranks * loopChunk := Nat.mul_pos ranks advances
        obtain ⟨later, loops, tiled⟩ :=
          ih _ (by omega) (elemOffset + nranks * loopChunk) rfl
        refine ⟨pieces ++ later, ?_, ?_⟩
        · intro fuel enough
          obtain ⟨fuel, rfl⟩ : ∃ passes, fuel = passes + 1 := ⟨fuel - 1, by omega⟩
          rw [ringLoop, if_pos started]
          simp only [pass, loops fuel (by omega), Option.bind_eq_bind, Option.bind_some,
            Option.pure_def]
        · rw [show elemOffset + min (part.partCount - elemOffset) (nranks * loopChunk) =
            min (elemOffset + nranks * loopChunk) part.partCount by omega] at here
          rw [Nat.min_eq_left started.le, Tiling.nonempty_append]
          exact here.append tiled
      · refine ⟨[], ?_, ?_⟩
        · intro fuel enough
          unfold ringLoop
          exact if_neg started
        · rw [Nat.min_eq_right (by omega)]
          exact Span.nil _

end Loop

/-! ### The splits of a buffer -/

section Buffer

variable {kRanks kChannels count : ℕ}

/-- The kernel loop over a share ends for every slot size, and its ring chunks tile the share. -/
def RingTiles (arith : Arith) (kRanks : ℕ) (dtype : DType) (part : CbdPart) : Prop :=
  ∀ args : FifoArgs, 0 < args.slotElems → ∃ pieces,
    (∀ fuel, part.partCount ≤ fuel → ringLoop arith kRanks dtype args part fuel 0 = some pieces) ∧
      Span 0 (nonempty pieces) part.partCount

/-- The shares of `cbd_part` on machine words. -/
structure CbdSplit (kRanks kChannels : ℕ) (dtype : DType) (count : ℕ) (part : ℕ → CbdPart) :
    Prop where
  computed : ∀ channel < kChannels,
    cbdPart (wrapping (2 ^ 64)) kRanks kChannels dtype count channel = some (part channel)
  chain : Chain 0
    ((List.range kChannels).map fun channel =>
      ((part channel).partOffset, (part channel).partCount)) count
  shares : Shares kChannels count fun channel => (part channel).toChannelPart
  aligned : ∀ channel < kChannels, AlignedShare kRanks kChannels dtype channel (part channel)
  tiles : ∀ channel < kChannels, RingTiles (wrapping (2 ^ 64)) kRanks dtype (part channel)

/-- The shares of `channel_part` on machine words. -/
structure DenseSplit (kChannels count : ℕ) (part : ℕ → ChannelPart) : Prop where
  computed : ∀ channel < kChannels,
    channelPart (wrapping (2 ^ 64)) kChannels count channel = some (part channel)
  chain : Chain 0
    ((List.range kChannels).map fun channel =>
      ((part channel).partOffset, (part channel).partCount)) count
  shares : Shares kChannels count part

theorem channelPart_denseSplit (channels : 0 < kChannels) (products : count * kChannels ≤ sizeMax) :
    DenseSplit kChannels count (NanoNccl.channelPart kChannels count) where
  computed channel channel_lt :=
    channelPart_mono (checked_refines_wrapping (by decide)) _ _ _ _
      (channelPart_checked kChannels (product_le channel_lt products))
  chain := (channelPart_cutAt channels count).chain
  shares := channelPart_shares channels count

theorem cbdPart_cbdSplit (dtype : DType) (ranks : 0 < kRanks) (channels : 0 < kChannels)
    (products : count * kChannels ≤ sizeMax)
    (room : count + kRanks * simpleGrainElems dtype ≤ sizeMax) :
    CbdSplit kRanks kChannels dtype count (NanoNccl.cbdPart kRanks kChannels dtype count) := by
  obtain ⟨grain_pos, -⟩ := simpleGrainElems_bounds dtype
  have vector_le : kVectorBytes / dtype.size ≤ simpleGrainElems dtype := by
    cases dtype <;> decide
  have vectors := Nat.mul_le_mul_left kRanks vector_le
  have pieces : kRanks ≤ kRanks * simpleGrainElems dtype := Nat.le_mul_of_pos_right kRanks grain_pos
  have grain : simpleGrainElems dtype ≤ kRanks * simpleGrainElems dtype :=
    Nat.le_mul_of_pos_left _ ranks
  obtain ⟨bound, cut⟩ := cbdPart_cutAt kRanks dtype channels count
  refine ⟨?_, cut.chain, cut.shares, ?_, ?_⟩
  · intro channel channel_lt
    exact cbdPart_mono (checked_refines_wrapping (by decide)) _ _ _ _ _ _
      (cbdPart_checked dtype ranks channel_lt (product_le channel_lt products) (by omega)
        (by omega))
  · intro channel _
    exact cbdPart_alignedShare kChannels dtype ranks count channel
  · intro channel channel_lt args slots
    have inside := cut.shares.inside channel channel_lt
    have chunks := mul_chunkCount_le kChannels dtype count channel ranks
    have aligned := cbdPart_alignedShare kChannels dtype ranks count channel
    have chunks_fit : kRanks * (NanoNccl.cbdPart kRanks kChannels dtype count channel).chunkCount ≤
        sizeMax := by
      omega
    have vectors_fit : (NanoNccl.cbdPart kRanks kChannels dtype count channel).partCount +
        kRanks * (kVectorBytes / dtype.size) ≤ sizeMax := by
      omega
    obtain ⟨pieces, loops, tiled⟩ := ringLoop_checked ranks chunks_fit vectors_fit
      aligned.chunk_eq_zero_iff slots 0
    refine ⟨pieces, fun fuel enough => ?_, by rwa [Nat.zero_min] at tiled⟩
    exact ringLoop_mono (checked_refines_wrapping (by decide)) _ _ _ _ _ _ _
      (loops fuel (by omega))

/-- Channels, passes and ring chunks partition every buffer whose size leaves 64 bits the room to
round a ring chunk up. -/
theorem splits_partition (dtype : DType) (ranks : 0 < kRanks) (channels : 0 < kChannels)
    (products : count * kChannels < 2 ^ 64)
    (room : count + kRanks * (512 / dtype.size) < 2 ^ 64) :
    (∃ part, CbdSplit kRanks kChannels dtype count part) ∧
      ∃ part, DenseSplit kChannels count part := by
  have products : count * kChannels ≤ sizeMax := Nat.le_sub_one_of_lt products
  exact ⟨⟨_, cbdPart_cbdSplit dtype ranks channels products (Nat.le_sub_one_of_lt room)⟩,
    ⟨_, channelPart_denseSplit channels products⟩⟩

theorem splits_partition_halves :
    (∃ part, CbdSplit 4 3 .float16 1000 part) ∧ ∃ part, DenseSplit 3 1000 part :=
  splits_partition .float16 (by decide) (by decide) (by decide) (by decide)

/-- Two ranks and one channel sharing the most elements that 64 bits count: rounding the ring chunk
up wraps around, and the share has elements but no ring chunk. -/
theorem splits_largest_count :
    (2 ^ 64 - 1) * 1 < 2 ^ 64 ∧
      ∃ part, cbdPart (wrapping (2 ^ 64)) 2 1 .float (2 ^ 64 - 1) 0 = some part ∧
        part.partCount ≠ 0 ∧ part.chunkCount = 0 := by
  refine ⟨by decide, ⟨⟨0, 2 ^ 64 - 1⟩, 0⟩, ?_, ?_, ?_⟩ <;> decide

end Buffer

end Words
end Communicator
end NanoNccl
