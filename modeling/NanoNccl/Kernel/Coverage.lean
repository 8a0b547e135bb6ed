import NanoNccl.Kernel.Delivery

/-!
# Plans tile the output

Slices tile their chunk, rounds of a pass write different chunks, passes tile the share of a
channel and shares tile the buffer. So the plans of a launch fit their slots, never write one
element twice and leave none out.
-/

namespace NanoNccl

variable {α : Type*}

/-! ## Slices of a round -/

namespace Round

variable {dtype : DType} {stepElems time : ℕ} {round : Round α} {entry : Entry α}

/-- The round writes output element `j`. -/
def Stores (round : Round α) (j : ℕ) : Prop :=
  round.prim.stores = true ∧ round.dst ≤ j ∧ j < round.dst + round.work

/-- An entry is a piece of its round. -/
theorem mem_entries (member : entry ∈ round.entries dtype stepElems time) :
    ∃ offset, offset + entry.op.work ≤ round.work ∧ entry.op.prim = round.prim ∧
      entry.op.src = round.src + offset ∧ entry.op.dst = round.dst + offset ∧
      (∀ i, entry.recv i = round.recv (offset + i)) ∧
      ∀ i, entry.sent i = round.sent (offset + i) := by
  obtain ⟨⟨⟨offset, work⟩, index⟩, found, rfl⟩ := List.mem_map.mp member
  have slice : (offset, work) ∈ round.cut dtype stepElems := List.fst_mem_of_mem_zipIdx found
  refine ⟨offset, ?_, rfl, rfl, rfl, fun _ => rfl, fun _ => rfl⟩
  unfold cut at slice
  split at slice
  · obtain ⟨rfl, rfl⟩ := Prod.mk.inj (List.mem_singleton.mp slice)
    exact (Nat.zero_add _).le
  · exact (mem_sliceLoop slice).2.2.2

theorem stores_of_covers (member : entry ∈ round.entries dtype stepElems time) {j : ℕ}
    (covers : entry.op.Covers j) : round.Stores j := by
  obtain ⟨offset, fits, prim, -, dst, -, -⟩ := mem_entries member
  obtain ⟨stores, low, high⟩ := covers
  rw [prim] at stores
  rw [dst] at low high
  exact ⟨stores, by omega, by omega⟩

theorem entries_apart (dtype : DType) (stepElems time : ℕ) (round : Round α) :
    (round.entries dtype stepElems time).Pairwise fun left right => left.op.Apart right.op := by
  have sorted : (round.cut dtype stepElems).Pairwise fun left right =>
      left.1 + left.2 ≤ right.1 := by
    unfold cut
    split
    · simp
    · exact pairwise_sliceLoop _ _ _ _
  have indexed : (round.cut dtype stepElems).zipIdx.Pairwise fun left right =>
      left.1.1 + left.1.2 ≤ right.1.1 := by
    rw [← List.zipIdx_map_fst 0 (round.cut dtype stepElems)] at sorted
    exact List.pairwise_map.mp sorted
  unfold entries
  rw [List.pairwise_map]
  refine indexed.imp fun {left right} ordered j both => ?_
  obtain ⟨⟨leftOffset, leftWork⟩, leftIndex⟩ := left
  obtain ⟨⟨rightOffset, rightWork⟩, rightIndex⟩ := right
  obtain ⟨⟨-, -, leftHigh⟩, -, rightLow, -⟩ := both
  simp only at ordered leftHigh rightLow
  omega

/-- Every element a round writes is written by one of its entries, with the value of the round. -/
theorem exists_covers (dtype : DType) (stepElems time : ℕ) {j : ℕ} (stores : round.Stores j) :
    ∃ entry ∈ round.entries dtype stepElems time, entry.op.Covers j ∧
      entry.op.prim = round.prim ∧ entry.sent (j - entry.op.dst) = round.sent (j - round.dst) := by
  obtain ⟨storing, low, high⟩ := stores
  obtain ⟨slice, found, sliceLow, sliceHigh⟩ : ∃ slice ∈ round.cut dtype stepElems,
      slice.1 ≤ j - round.dst ∧ j - round.dst < slice.1 + slice.2 := by
    unfold cut
    split
    · exact ⟨_, List.mem_singleton_self _, by omega, by simp only; omega⟩
    · exact exists_mem_slices dtype stepElems (by omega)
  obtain ⟨index, inside, rfl⟩ := List.mem_iff_getElem.mp found
  refine ⟨_, List.mem_map.mpr ⟨((round.cut dtype stepElems)[index], index), ?_, rfl⟩, ?_, rfl, ?_⟩
  · rw [List.mk_mem_zipIdx_iff_getElem?]
    exact List.getElem?_eq_getElem inside
  · refine ⟨storing, ?_, ?_⟩ <;> simp only <;> omega
  · simp only
    congr 1
    omega

end Round

/-! ## Passes of a plan -/

section Plan

variable {dtype : DType} {stepElems rounds : ℕ} {round : ℕ → ℕ → Round α} {offsets : List ℕ}
  {entry : Entry α}

theorem mem_planEntries (member : entry ∈ planEntries dtype stepElems rounds round offsets) :
    ∃ offset ∈ offsets, ∃ p < rounds, ∃ time,
      entry ∈ (round offset p).entries dtype stepElems time := by
  simp only [planEntries, passEntries, List.mem_flatMap, List.mem_range] at member
  obtain ⟨⟨offset, pass⟩, found, p, inside, planned⟩ := member
  exact ⟨offset, List.fst_mem_of_mem_zipIdx found, p, inside, _, planned⟩

theorem planEntries_apart
    (within : ∀ offset ∈ offsets, ∀ p < rounds, ∀ q < rounds, ∀ j,
      (round offset p).Stores j → (round offset q).Stores j → p = q)
    (across : offsets.Pairwise fun left right => ∀ p < rounds, ∀ q < rounds, ∀ j,
      ¬ ((round left p).Stores j ∧ (round right q).Stores j)) :
    (planEntries dtype stepElems rounds round offsets).Pairwise
      fun left right => left.op.Apart right.op := by
  have indexed : offsets.zipIdx.Pairwise fun left right => ∀ p < rounds, ∀ q < rounds, ∀ j,
      ¬ ((round left.1 p).Stores j ∧ (round right.1 q).Stores j) := by
    rw [← List.zipIdx_map_fst 0 offsets] at across
    exact List.pairwise_map.mp across
  unfold planEntries
  rw [List.pairwise_flatMap]
  constructor
  · rintro ⟨offset, pass⟩ found
    have member : offset ∈ offsets := List.fst_mem_of_mem_zipIdx found
    unfold passEntries
    rw [List.pairwise_flatMap]
    refine ⟨fun p _ => Round.entries_apart _ _ _ _, ?_⟩
    refine List.nodup_range.imp_of_mem fun {p q} pIn qIn distinct left leftIn right rightIn j both
      => distinct ?_
    exact within offset member p (List.mem_range.mp pIn) q (List.mem_range.mp qIn) j
      (Round.stores_of_covers leftIn both.1) (Round.stores_of_covers rightIn both.2)
  · refine indexed.imp fun {left right} apart first firstIn second secondIn j both => ?_
    simp only [passEntries, List.mem_flatMap, List.mem_range] at firstIn secondIn
    obtain ⟨p, pIn, firstIn⟩ := firstIn
    obtain ⟨q, qIn, secondIn⟩ := secondIn
    exact apart p pIn q qIn j ⟨Round.stores_of_covers firstIn both.1,
      Round.stores_of_covers secondIn both.2⟩

theorem exists_covers_planEntries (dtype : DType) (stepElems : ℕ) {offset p j : ℕ}
    (member : offset ∈ offsets) (inside : p < rounds) (stores : (round offset p).Stores j) :
    ∃ entry ∈ planEntries dtype stepElems rounds round offsets, entry.op.Covers j ∧
      entry.op.prim = (round offset p).prim ∧
      entry.sent (j - entry.op.dst) = (round offset p).sent (j - (round offset p).dst) := by
  obtain ⟨pass, at_pass, rfl⟩ := List.mem_iff_getElem.mp member
  obtain ⟨entry, planned, covers, prim, sent⟩ :=
    Round.exists_covers dtype stepElems (pass * rounds + p) stores
  refine ⟨entry, ?_, covers, prim, sent⟩
  simp only [planEntries, passEntries, List.mem_flatMap, List.mem_range]
  refine ⟨(offsets[pass], pass), ?_, p, inside, planned⟩
  rw [List.mk_mem_zipIdx_iff_getElem?]
  exact List.getElem?_eq_getElem at_pass

end Plan

namespace KernelRing

variable (net : KernelRing α) (launch : Launch α)

/-! ## Shares and passes of a launch -/

/-- Share of a channel. -/
def share (channel : ℕ) : ChannelPart :=
  match launch.kind with
  | .allReduce => (net.cbdPart launch channel).toChannelPart
  | .allGather | .reduceScatter => net.channelPart launch channel

/-- Elements the pass at `elemOffset` advances by. -/
def advance (channel elemOffset : ℕ) : ℕ :=
  match launch.kind with
  | .allReduce =>
      let part := net.cbdPart launch channel
      net.kRanks * loopChunk net.kRanks launch.dtype (launch.fifoArgs 0) part
        (part.partCount - elemOffset)
  | .allGather | .reduceScatter =>
      passWork (launch.fifoArgs 0) (net.channelPart launch channel) elemOffset

theorem shares (positive : 0 < net.kChannels) :
    Shares net.kChannels launch.count (net.share launch) := by
  unfold share
  cases launch.kind with
  | allReduce => exact cbdPart_shares net.kRanks launch.dtype positive launch.count
  | allGather => exact channelPart_shares positive launch.count
  | reduceScatter => exact channelPart_shares positive launch.count

theorem slotElems_pos (dtype : DType) : 0 < stepElems kFifoBytes dtype := by
  cases dtype <;> decide

theorem vectorElems_dvd_slotElems (dtype : DType) :
    kVectorBytes / dtype.size ∣ stepElems kFifoBytes dtype := by
  cases dtype <;> decide

theorem emptyShare_eq (ranks : 0 < net.kRanks) (channel : ℕ) :
    net.emptyShare launch channel = decide ((net.share launch channel).partCount = 0) := by
  unfold emptyShare share
  cases launch.kind with
  | allReduce =>
      by_cases nonempty : (net.cbdPart launch channel).partCount = 0
      · simp only [nonempty, decide_true]
        exact decide_eq_true (.inl nonempty)
      · have chunk := chunkCount_pos ranks nonempty
        simp only [nonempty, decide_false]
        exact decide_eq_false (not_or.mpr ⟨nonempty, Nat.pos_iff_ne_zero.mp chunk⟩)
  | allGather => rfl
  | reduceScatter => rfl

theorem passOffsets_eq (channel : ℕ) :
    net.passOffsets launch channel =
      if net.emptyShare launch channel then some []
      else elemOffsets (net.share launch channel).partCount (net.advance launch channel)
        launch.count 0 := by
  unfold passOffsets share advance
  cases launch.kind <;> rfl

theorem advance_pos (ranks : 0 < net.kRanks) {channel elemOffset : ℕ}
    (inside : elemOffset < (net.share launch channel).partCount) :
    0 < net.advance launch channel elemOffset := by
  unfold share at inside
  unfold advance
  cases kind : launch.kind with
  | allReduce =>
      simp only [kind] at inside ⊢
      refine Nat.mul_pos ranks (loopChunk_pos ranks (by omega) ?_ (slotElems_pos launch.dtype))
      exact chunkCount_pos ranks fun empty =>
        absurd inside (by rw [show (net.cbdPart launch channel).partCount = 0 from empty]; omega)
  | allGather | reduceScatter =>
      simp only [kind] at inside ⊢
      have := slotElems_pos launch.dtype
      unfold passWork Launch.fifoArgs
      simp only
      split <;> omega

/-- The passes of a channel tile its share; in particular the kernel loop ends. -/
theorem exists_passOffsets (ranks : 0 < net.kRanks) {channel : ℕ}
    (channel_lt : channel < net.kChannels) :
    ∃ offsets, net.passOffsets launch channel = some offsets ∧
      (∀ offset ∈ offsets, offset < (net.share launch channel).partCount) ∧
      (offsets.Pairwise fun left right => left + net.advance launch channel left ≤ right) ∧
      ∀ x < (net.share launch channel).partCount, ∃ offset ∈ offsets,
        offset ≤ x ∧ x < offset + net.advance launch channel offset := by
  rw [passOffsets_eq, emptyShare_eq net launch ranks]
  split
  · rename_i empty
    refine ⟨[], rfl, by simp, List.Pairwise.nil, ?_⟩
    intro x inside
    rw [of_decide_eq_true empty] at inside
    omega
  · have bound := (net.shares launch (by omega)).inside channel channel_lt
    have ends := elemOffsets_isSome (fun offset inside => net.advance_pos launch ranks inside)
      (show (net.share launch channel).partCount ≤ 0 + launch.count by omega)
    obtain ⟨offsets, loops⟩ := Option.isSome_iff_exists.mp ends
    exact ⟨offsets, loops, fun offset => mem_elemOffsets_lt loops, pairwise_elemOffsets loops,
      fun x inside => exists_mem_elemOffsets loops (Nat.zero_le x) inside⟩

/-- Every kernel block has a finite list of slice operations. -/
theorem kernel_isSome {id : BlockId} (two : 2 ≤ net.kRanks) (id_rank : id.1 < net.kRanks)
    (id_channel : id.2 < net.kChannels) : (net.kernel launch id).isSome = true := by
  obtain ⟨offsets, passes, -⟩ := net.exists_passOffsets launch (by omega) id_channel
  rw [net.kernel_eq launch id_rank two, passes]
  rfl

end KernelRing

end NanoNccl
