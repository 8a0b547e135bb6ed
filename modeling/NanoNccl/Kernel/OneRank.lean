import NanoNccl.Kernel.SelfEdge
import NanoNccl.Kernel.Slots

/-!
# The collectives of one rank

On a ring of one rank every pass sends its chunk to itself once. AllReduce and ReduceScatter
reduce what comes back with the input it was sent from, so that a sum is doubled; AllGather
returns it.
-/

namespace NanoNccl
namespace SelfRing

variable {α : Type*} (net : SelfRing α)

/-! ### Slices of a chunk -/

section Slices

/-- The slice operations of a primitive, by its slices. -/
def slicedAt (prim : Prim) (src dst : ℕ) (slices : List (ℕ × ℕ)) : List SliceOp :=
  slices.map fun (offset, work) => { prim, src := src + offset, dst := dst + offset, work }

/-- The slices of a chunk on the way, holding the values of `content`. -/
def queueOf (content : ℕ → α) (start : ℕ) (slices : List (ℕ × ℕ)) : Queue α :=
  slices.map fun (offset, work) => (work, fun i => content (start + (offset + i)))

/-- The cells of the slices hold the values of `content`. -/
def stamp (content : ℕ → α) (start : ℕ) (slices : List (ℕ × ℕ)) (out : ℕ → α) : ℕ → α := fun j =>
  if ∃ slice ∈ slices, start + slice.1 ≤ j ∧ j < start + slice.1 + slice.2 then content j else out j

variable {net} {prim : Prim} {src dst start : ℕ} {content out : ℕ → α} {slices : List (ℕ × ℕ)}

theorem stamp_cons (slice : ℕ × ℕ) :
    stamp content start (slice :: slices) out =
      stamp content start slices
        (Memory.overwrite out (start + slice.1) slice.2 fun i =>
          content (start + (slice.1 + i))) := by
  funext j
  unfold stamp Memory.overwrite
  by_cases later : ∃ other ∈ slices, start + other.1 ≤ j ∧ j < start + other.1 + other.2
  · rw [if_pos later, if_pos]
    obtain ⟨other, among, bounds⟩ := later
    exact ⟨other, List.mem_cons_of_mem _ among, bounds⟩
  · rw [if_neg later]
    by_cases here : start + slice.1 ≤ j ∧ j < start + slice.1 + slice.2
    · rw [if_pos ⟨slice, List.mem_cons_self, here⟩, if_pos here]
      congr 1
      omega
    · rw [if_neg here, if_neg]
      rintro ⟨other, among, bounds⟩
      rcases List.mem_cons.mp among with rfl | among
      · exact here bounds
      · exact later ⟨other, among, bounds⟩

/-- A primitive works through the slices of a chunk: what it receives is at the front of the
queue, and what it sends goes to the end. -/
theorem replay_slicedAt (received content : ℕ → α) (slices : List (ℕ × ℕ)) (queue : Queue α)
    (out : ℕ → α)
    (value : ∀ k recv, (prim.recvs = true → recv = received (start + k)) →
      net.produce prim (src + k) recv = content (start + k))
    (place : prim.stores = true → dst = start) :
    net.replay (slicedAt prim src dst slices)
        ((if prim.recvs then queueOf received start slices else []) ++ queue, out) =
      some (queue ++ (if prim.sends then queueOf content start slices else []),
        if prim.stores then stamp content start slices out else out) := by
  induction slices generalizing queue out with
  | nil =>
      have untouched : stamp content start [] out = out := by
        funext j
        simp [stamp]
      simp [slicedAt, queueOf, replay, untouched]
  | cons slice slices ih =>
      obtain ⟨offset, work⟩ := slice
      let op : SliceOp := { prim, src := src + offset, dst := dst + offset, work }
      have values (recv : ℕ → α) (same : prim.recvs = true →
          recv = fun i => received (start + (offset + i))) :
          (fun i => net.produce prim (src + offset + i) (recv i)) =
            fun i => content (start + (offset + i)) := by
        funext i
        rw [Nat.add_assoc]
        exact value (offset + i) (recv i) fun receives => by rw [same receives]
      have leaves (recv : ℕ → α) (later : Queue α) (same : prim.recvs = true →
          recv = fun i => received (start + (offset + i))) :
          net.leave op recv later out =
            (later ++
              (if prim.sends then [(work, fun i => content (start + (offset + i)))] else []),
              if prim.stores then Memory.overwrite out (start + offset) work fun i =>
                content (start + (offset + i)) else out) := by
        simp only [leave, op, values recv same, store]
        cases prim.sends <;> cases stores : prim.stores <;> simp [place, stores]
      have rest (sent : Queue α) := ih (queue ++ sent)
        (if prim.stores then Memory.overwrite out (start + offset) work fun i =>
          content (start + (offset + i)) else out)
      have stamped : (if prim.stores then stamp content start ((offset, work) :: slices) out
          else out) = if prim.stores then stamp content start slices
            (if prim.stores then Memory.overwrite out (start + offset) work fun i =>
              content (start + (offset + i)) else out)
            else if prim.stores then Memory.overwrite out (start + offset) work fun i =>
              content (start + (offset + i)) else out := by
        cases prim.stores
        · rfl
        · exact stamp_cons (offset, work)
      rw [stamped]
      change net.replay (op :: slicedAt prim src dst slices) _ = _
      cases receives : prim.recvs with
      | true =>
          have taken : net.take op (queueOf received start ((offset, work) :: slices) ++ queue) =
              some (fun i => received (start + (offset + i)),
                queueOf received start slices ++ queue) := by
            simp [take, op, receives, queueOf]
          simp only [receives, if_true] at rest leaves ⊢
          rw [replay, taken, Option.bind_some, leaves _ _ fun _ => rfl, List.append_assoc, rest]
          cases prim.sends <;> simp [queueOf]
      | false =>
          have taken : net.take op queue = some (net.launch.input 0, queue) := by
            simp [take, op, receives]
          simp only [receives, Bool.false_eq_true, if_false, List.nil_append] at rest leaves ⊢
          rw [replay, taken, Option.bind_some, leaves _ _ (by simp), rest]
          cases prim.sends <;> simp [queueOf]

end Slices

/-! ### One pass -/

/-- The share of a channel. -/
def share (channel : ℕ) : ChannelPart :=
  match net.launch.kind with
  | .allReduce =>
      (cbdPart 1 net.kChannels net.launch.dtype net.launch.count channel).toChannelPart
  | .allGather | .reduceScatter => channelPart net.kChannels net.launch.count channel

/-- The pass of a block at `elem_offset`. -/
def pass (channel elemOffset : ℕ) : List SliceOp :=
  match net.launch.kind with
  | .allReduce =>
      ringSimplePass 1 net.launch.dtype net.args
        (cbdPart 1 net.kChannels net.launch.dtype net.launch.count channel) elemOffset
  | .allGather =>
      ringSimpleAllGatherPass 1 net.launch.dtype net.args
        (channelPart net.kChannels net.launch.count channel) elemOffset
  | .reduceScatter =>
      ringSimpleReduceScatterPass 1 net.launch.dtype net.args
        (channelPart net.kChannels net.launch.count channel) elemOffset

/-- How far a pass advances. -/
def advance (channel elemOffset : ℕ) : ℕ :=
  match net.launch.kind with
  | .allReduce =>
      let part := cbdPart 1 net.kChannels net.launch.dtype net.launch.count channel
      1 * loopChunk 1 net.launch.dtype net.args part (part.partCount - elemOffset)
  | .allGather | .reduceScatter =>
      passWork net.args (channelPart net.kChannels net.launch.count channel) elemOffset

/-- Elements of the chunk of a pass. -/
def passSize (channel elemOffset : ℕ) : ℕ :=
  match net.launch.kind with
  | .allReduce =>
      let part := cbdPart 1 net.kChannels net.launch.dtype net.launch.count channel
      nelem (loopChunk 1 net.launch.dtype net.args part (part.partCount - elemOffset))
        (part.partCount - elemOffset) 0
  | .allGather | .reduceScatter =>
      passWork net.args (channelPart net.kChannels net.launch.count channel) elemOffset

/-- The slices of the chunk of a pass. -/
def cut (channel elemOffset : ℕ) : List (ℕ × ℕ) :=
  slices net.launch.dtype net.stepElems (net.passSize channel elemOffset)

/-- The first output element of a pass. -/
def passStart (channel elemOffset : ℕ) : ℕ := (net.share channel).partOffset + elemOffset

/-- What the call leaves for an element of the input. -/
def outcome (j : ℕ) : α :=
  let x := net.launch.input 0 j
  match net.launch.kind with
  | .allGather => x
  | .allReduce | .reduceScatter => net.finish (net.apply net.launch.redop x x)

section Pass

variable {net} {channel elemOffset : ℕ}

theorem replay_append (first second : List SliceOp) (left : Queue α × (ℕ → α)) :
    net.replay (first ++ second) left =
      (net.replay first left).bind fun middle => net.replay second middle := by
  induction first generalizing left with
  | nil => rfl
  | cons op first ih => simp only [List.cons_append, replay, ih, Option.bind_assoc]

theorem stamp_stamp (content : ℕ → α) (start : ℕ) (slices : List (ℕ × ℕ)) (out : ℕ → α) :
    stamp content start slices (stamp content start slices out) =
      stamp content start slices out := by
  funext j
  unfold stamp
  split <;> rfl

/-- Slices cover their chunk and nothing else. -/
theorem stamp_slices (content : ℕ → α) (start : ℕ) (dtype : DType) (stepElems count : ℕ)
    (out : ℕ → α) :
    stamp content start (slices dtype stepElems count) out =
      stamp content start [(0, count)] out := by
  funext j
  unfold stamp
  congr 1
  refine propext ⟨?_, ?_⟩
  · rintro ⟨slice, among, low, high⟩
    have := mem_sliceLoop among
    exact ⟨(0, count), List.mem_cons_self, by simp only; omega, by simp only; omega⟩
  · rintro ⟨whole, among, low, high⟩
    obtain rfl := List.mem_singleton.mp among
    simp only at low high
    obtain ⟨slice, among, above, below⟩ := exists_mem_slices dtype stepElems
      (show j - start < count by omega)
    exact ⟨slice, among, by omega, by omega⟩

section Chunk

variable (net) (start : ℕ) (cut : List (ℕ × ℕ)) (out : ℕ → α)

theorem replay_directSend :
    net.replay (slicedAt .directSend start 0 cut) ([], out) =
      some (queueOf (net.launch.input 0) start cut, out) :=
  replay_slicedAt (net.launch.input 0) (net.launch.input 0) cut [] out (fun _ _ _ => rfl)
    fun stores => by cases stores

/-- A chunk received is written over by what the primitive makes of it; where it is sent on, it is
sent in the same slices. -/
theorem replay_receive {prim : Prim} {src : ℕ} {received content : ℕ → α}
    (receives : prim.recvs = true) (stores : prim.stores = true)
    (value : ∀ k, net.produce prim (src + k) (received (start + k)) = content (start + k)) :
    net.replay (slicedAt prim src start cut) (queueOf received start cut, out) =
      some (if prim.sends then queueOf content start cut else [], stamp content start cut out) := by
  have replayed := replay_slicedAt received content cut [] out
    (fun k recv same => (congrArg _ (same receives)).trans (value k)) fun _ => rfl
  simpa only [receives, stores, if_true, List.append_nil, List.nil_append] using replayed

end Chunk

theorem finish_outcome (reduces : net.launch.kind ≠ .allGather) (j : ℕ) :
    net.finish (net.apply net.launch.redop (net.launch.input 0 j) (net.launch.input 0 j)) =
      net.outcome j := by
  unfold outcome
  cases kind : net.launch.kind <;> simp_all

/-- What follows the send of the chunk to itself. -/
theorem pass_eq (channel elemOffset : ℕ) :
    net.pass channel elemOffset =
      let start := net.passStart channel elemOffset
      let cut := net.cut channel elemOffset
      let send := slicedAt .directSend start 0 cut
      match net.launch.kind with
      | .allReduce =>
          send ++ (slicedAt .recvReduceCopySend start start cut ++ slicedAt .directRecv 0 start cut)
      | .allGather =>
          slicedAt .copyWorker start start [(0, net.passSize channel elemOffset)] ++
            (send ++ slicedAt .directRecv 0 start cut)
      | .reduceScatter => send ++ slicedAt .recvReduceCopy start start cut := by
  unfold pass passStart cut passSize share
  cases kind : net.launch.kind with
  | allReduce =>
      simp [ringSimplePass, directSend, recvReduceCopySend, directRecv, sliced, slicedAt, args,
        Nat.mod_one]
  | allGather =>
      simp [ringSimpleAllGatherPass, directSend, directRecv, copyWorker, sliced, slicedAt, args,
        Nat.mod_one]
  | reduceScatter =>
      simp [ringSimpleReduceScatterPass, directSend, recvReduceCopy, sliced, slicedAt, args,
        Nat.mod_one]

/-- A pass empties its queue and leaves the outcome in its chunk. -/
theorem replay_pass (channel elemOffset : ℕ) (out : ℕ → α) :
    net.replay (net.pass channel elemOffset) ([], out) =
      some ([], stamp net.outcome (net.passStart channel elemOffset)
        [(0, net.passSize channel elemOffset)] out) := by
  rw [pass_eq]
  have whole (content : ℕ → α) (start : ℕ) (out : ℕ → α) :
      stamp content start [(0, net.passSize channel elemOffset)] out =
        stamp content start (net.cut channel elemOffset) out :=
    (stamp_slices content start net.launch.dtype net.stepElems _ out).symm
  rw [whole]
  generalize net.cut channel elemOffset = cut at whole ⊢
  generalize net.passStart channel elemOffset = start
  cases kind : net.launch.kind with
  | allReduce =>
      have reduced (k : ℕ) : net.produce .recvReduceCopySend (start + k)
          (net.launch.input 0 (start + k)) = net.outcome (start + k) :=
        finish_outcome (by simp [kind]) (start + k)
      have returned (k : ℕ) : net.produce .directRecv (0 + k) (net.outcome (start + k)) =
          net.outcome (start + k) := rfl
      simp only [replay_append, replay_directSend, Option.bind_some]
      rw [replay_receive net start cut out rfl rfl reduced]
      simp only [Option.bind_some, Prim.sends, if_true]
      rw [replay_receive net start cut _ rfl rfl returned, stamp_stamp]
      simp [Prim.sends]
  | allGather =>
      have kept : net.outcome = net.launch.input 0 := by
        funext j
        simp [outcome, kind]
      have copied : net.replay (slicedAt .copyWorker start start
          [(0, net.passSize channel elemOffset)]) ([], out) =
          some ([], stamp (net.launch.input 0) start cut out) := by
        rw [← whole]
        exact replay_slicedAt (net.launch.input 0) (net.launch.input 0) _ [] out
          (fun _ _ _ => rfl) fun _ => rfl
      have returned (k : ℕ) : net.produce .directRecv (0 + k) (net.launch.input 0 (start + k)) =
          net.launch.input 0 (start + k) := rfl
      simp only [replay_append, copied, replay_directSend, Option.bind_some]
      rw [replay_receive net start cut _ rfl rfl returned, stamp_stamp, kept]
      simp [Prim.sends]
  | reduceScatter =>
      have reduced (k : ℕ) : net.produce .recvReduceCopy (start + k)
          (net.launch.input 0 (start + k)) = net.outcome (start + k) :=
        finish_outcome (by simp [kind]) (start + k)
      simp only [replay_append, replay_directSend, Option.bind_some]
      rw [replay_receive net start cut out rfl rfl reduced]
      simp [Prim.sends]

end Pass

/-! ### All passes -/

section Kernel

variable {net} {channel elemOffset : ℕ}

/-- The only chunk of a ring of one rank fits its slot before it is aligned. -/
theorem nelem_loopChunk_le {dtype : DType} {args : FifoArgs} {part : CbdPart} (remCount : ℕ) :
    nelem (loopChunk 1 dtype args part remCount) remCount 0 ≤ args.slotElems := by
  have slot : loopChunkElems part.chunkCount args.slotElems ≤ args.slotElems := by
    unfold loopChunkElems
    split <;> omega
  by_cases last : remCount < 1 * loopChunkElems part.chunkCount args.slotElems
  · have := nelem_le_remCount (loopChunk 1 dtype args part remCount) remCount 0
    omega
  · have whole : loopChunk 1 dtype args part remCount =
        loopChunkElems part.chunkCount args.slotElems := if_neg last
    rw [whole]
    exact Nat.le_trans (nelem_le_chunk _ _ _) slot

theorem passSize_le (net : SelfRing α) (channel elemOffset : ℕ) :
    net.passSize channel elemOffset ≤ net.slotElems := by
  unfold passSize
  cases net.launch.kind with
  | allReduce => exact nelem_loopChunk_le _
  | allGather | reduceScatter => exact (passWork_le net.args _ _).1

/-- A pass stays in the share of its channel. -/
theorem passSize_inside (inside : elemOffset < (net.share channel).partCount) :
    elemOffset + net.passSize channel elemOffset ≤ (net.share channel).partCount := by
  have short : net.passSize channel elemOffset ≤ (net.share channel).partCount - elemOffset := by
    unfold share passSize
    cases net.launch.kind with
    | allReduce => exact nelem_le_remCount _ _ _
    | allGather | reduceScatter => exact (passWork_le net.args _ _).2
  omega

/-- A pass takes all elements up to the next one. -/
theorem lt_passSize {i : ℕ} (before : i < net.advance channel elemOffset)
    (inside : elemOffset + i < (net.share channel).partCount) :
    i < net.passSize channel elemOffset := by
  unfold share at inside
  unfold advance at before
  unfold passSize
  cases kind : net.launch.kind with
  | allReduce =>
      simp only [kind, Nat.one_mul] at before inside ⊢
      exact lt_nelem before (by omega)
  | allGather | reduceScatter =>
      simp only [kind] at before ⊢
      exact before

theorem shares (net : SelfRing α) (channels : 0 < net.kChannels) :
    Shares net.kChannels net.launch.count net.share := by
  unfold share
  cases net.launch.kind with
  | allReduce => exact cbdPart_shares 1 net.launch.dtype channels net.launch.count
  | allGather | reduceScatter => exact channelPart_shares channels net.launch.count

/-- The element loop of a kernel ends, and its passes tile what it loops over. -/
theorem loop_tiles {bound fuel : ℕ} {advance : ℕ → ℕ} {empty : Prop} [Decidable empty]
    (body : ℕ → List SliceOp) (none : empty → bound = 0)
    (advances : ∀ offset < bound, 0 < advance offset) (enough : bound ≤ fuel) :
    ∃ offsets : List ℕ, (if empty then some [] else
        (elemOffsets bound advance fuel 0).map fun offsets => offsets.flatMap body) =
          some (offsets.flatMap body) ∧
      (∀ offset ∈ offsets, offset < bound) ∧
      ∀ i < bound, ∃ offset ∈ offsets, offset ≤ i ∧ i < offset + advance offset := by
  by_cases nothing : empty
  · refine ⟨[], if_pos nothing, by simp, fun i inside => ?_⟩
    rw [none nothing] at inside
    omega
  · obtain ⟨offsets, loops⟩ := Option.isSome_iff_exists.mp
      (elemOffsets_isSome advances (show bound ≤ 0 + fuel by omega))
    refine ⟨offsets, ?_, fun offset => mem_elemOffsets_lt loops,
      fun i inside => exists_mem_elemOffsets loops (Nat.zero_le i) inside⟩
    rw [if_neg nothing, loops]
    rfl

/-- The kernel of a block runs passes that tile the share of its channel. -/
theorem kernel_eq (slots : 0 < net.slotElems) (inside : channel < net.kChannels) :
    ∃ offsets : List ℕ, net.kernel channel = some (offsets.flatMap (net.pass channel)) ∧
      (∀ offset ∈ offsets, offset < (net.share channel).partCount) ∧
      ∀ i < (net.share channel).partCount, ∃ offset ∈ offsets,
        offset ≤ i ∧ i < offset + net.advance channel offset := by
  have bound := (shares net (by omega)).inside channel inside
  have enough : (net.share channel).partCount ≤ net.launch.count := by omega
  unfold kernel pass advance
  unfold share at enough ⊢
  cases kind : net.launch.kind with
  | allReduce =>
      simp only [kind] at enough ⊢
      refine loop_tiles _ (fun empty => ?_) (fun offset inside => ?_) enough
      · by_contra nonempty
        rcases empty with none | none
        · exact nonempty none
        · exact absurd none (Nat.pos_iff_ne_zero.mp (chunkCount_pos Nat.one_pos nonempty))
      · have ring : 0 < net.args.slotElems := slots
        exact allReduce_advance_pos Nat.one_pos ring inside
  | allGather | reduceScatter =>
      simp only [kind] at enough ⊢
      refine loop_tiles _ id (fun offset inside => ?_) enough
      have ring : 0 < net.args.slotElems := slots
      exact passWork_pos ring inside

/-- A list of passes leaves the outcome in their chunks, and wherever it was before. -/
theorem replay_passes (channel : ℕ) (offsets : List ℕ) (out : ℕ → α) :
    ∃ out', net.replay (offsets.flatMap (net.pass channel)) ([], out) = some ([], out') ∧
      ∀ j, (out j = net.outcome j ∨ ∃ offset ∈ offsets, net.passStart channel offset ≤ j ∧
        j < net.passStart channel offset + net.passSize channel offset) →
          out' j = net.outcome j := by
  induction offsets generalizing out with
  | nil => exact ⟨out, rfl, fun j covered => by simpa using covered⟩
  | cons offset offsets ih =>
      obtain ⟨out', replayed, covered⟩ := ih (stamp net.outcome (net.passStart channel offset)
        [(0, net.passSize channel offset)] out)
      refine ⟨out', ?_, fun j reached => covered j ?_⟩
      · rw [List.flatMap_cons, replay_append, replay_pass, Option.bind_some, replayed]
      · rcases reached with before | ⟨other, among, low, high⟩
        · refine .inl ?_
          unfold stamp
          split
          · rfl
          · exact before
        · rcases List.mem_cons.mp among with rfl | among
          · exact .inl (if_pos
              ⟨_, List.mem_singleton_self _, by simpa using low, by simpa using high⟩)
          · exact .inr ⟨other, among, low, high⟩

/-- The slice operations of a pass fit their slots and stay in the share of the channel. -/
theorem fits_pass (inside : elemOffset < (net.share channel).partCount) {op : SliceOp}
    (member : op ∈ net.pass channel elemOffset) :
    net.Fits (fun j => (net.share channel).partOffset ≤ j ∧
      j < (net.share channel).partOffset + (net.share channel).partCount) op := by
  have room := passSize_inside inside
  have slot := passSize_le net channel elemOffset
  have sliced {prim : Prim} {src dst : ℕ} {cut : List (ℕ × ℕ)}
      (short : ∀ slice ∈ cut, slice.1 + slice.2 ≤ net.passSize channel elemOffset)
      (place : prim.stores = true → dst = net.passStart channel elemOffset)
      (member : op ∈ slicedAt prim src dst cut) :
      net.Fits (fun j => (net.share channel).partOffset ≤ j ∧
        j < (net.share channel).partOffset + (net.share channel).partCount) op := by
    obtain ⟨slice, among, rfl⟩ := List.mem_map.mp member
    have bound := short slice among
    refine ⟨fun _ => by simp only; omega, fun stores i within => ?_⟩
    simp only at stores within ⊢
    have start := place stores
    unfold passStart at start
    omega
  have short (slice : ℕ × ℕ) (among : slice ∈ net.cut channel elemOffset) :
      slice.1 + slice.2 ≤ net.passSize channel elemOffset := (mem_sliceLoop among).2.2.2
  rw [pass_eq] at member
  cases kind : net.launch.kind with
  | allReduce =>
      simp only [kind, List.mem_append] at member
      rcases member with sent | reduced | received
      · exact sliced short (fun stores => by cases stores) sent
      · exact sliced short (fun _ => rfl) reduced
      · exact sliced short (fun _ => rfl) received
  | allGather =>
      simp only [kind, List.mem_append] at member
      rcases member with copied | sent | received
      · exact sliced (by simp) (fun _ => rfl) copied
      · exact sliced short (fun stores => by cases stores) sent
      · exact sliced short (fun _ => rfl) received
  | reduceScatter =>
      simp only [kind, List.mem_append] at member
      rcases member with sent | reduced
      · exact sliced short (fun stores => by cases stores) sent
      · exact sliced short (fun _ => rfl) reduced

end Kernel

/-! ### The collectives -/

section Collectives

variable {net}

/-- What a collective on one rank leaves, in every run: AllGather the input, AllReduce and
ReduceScatter each element reduced with itself. -/
theorem output_eq_outcome (slots : 0 < net.slotElems) (channels : 0 < net.kChannels)
    {base : ℕ → ℕ} {fifo : ℕ → ℕ → α} {output : ℕ → α} {state : SelfState α}
    (reach : StepSystem.Reachable net.step (net.initial base fifo output) state)
    (returned : net.Returned state) {i : ℕ} (inside : i < net.launch.count) :
    state.output i = net.outcome i := by
  have tiles := shares net channels
  let region (channel j : ℕ) : Prop := (net.share channel).partOffset ≤ j ∧
    j < (net.share channel).partOffset + (net.share channel).partCount
  have leaves (channel : ℕ) : ∃ out, channel < net.kChannels →
      net.replay ((net.kernel channel).getD []) ([], output) = some ([], out) ∧
        (∀ j, region channel j → out j = net.outcome j) ∧
        ∀ op ∈ (net.kernel channel).getD [], net.Fits (region channel) op := by
    by_cases inside : channel < net.kChannels
    · obtain ⟨offsets, kernel, starts, cover⟩ := kernel_eq slots inside
      obtain ⟨out, replayed, holds⟩ := replay_passes channel offsets output
      rw [kernel]
      refine ⟨out, fun _ => ⟨replayed, fun j owned => holds j (.inr ?_), fun op member => ?_⟩⟩
      · obtain ⟨low, high⟩ := owned
        obtain ⟨offset, among, above, below⟩ :=
          cover (j - (net.share channel).partOffset) (by omega)
        have short : j - (net.share channel).partOffset - offset < net.passSize channel offset :=
          lt_passSize (by omega) (by omega)
        refine ⟨offset, among, ?_, ?_⟩ <;> unfold passStart <;> omega
      · obtain ⟨offset, among, within⟩ := List.mem_flatMap.mp member
        exact fits_pass (starts offset among) within
    · exact ⟨output, fun impossible => absurd impossible inside⟩
  choose out leaves using leaves
  obtain ⟨channel, channel_lt, low, high⟩ := tiles.cover i inside
  rw [← (leaves channel channel_lt).2.1 i ⟨low, high⟩]
  exact returned_output region (fun channel => ([], out channel))
    (fun first first_lt second second_lt distinct j left right => distinct
      (tiles.unique j first second first_lt second_lt left.1 left.2 right.1 right.2))
    (fun channel inside => (leaves channel inside).2.2)
    (fun channel inside => (leaves channel inside).1) reach returned channel_lt ⟨low, high⟩

end Collectives

end SelfRing

/-! ### Which calls are the identity -/

/-- The arithmetic of the element type. -/
structure Elements (α : Type*) where
  /-- `a + b` -/
  add : α → α → α
  /-- `a != a` -/
  isNan : α → Bool
  /-- `a > b` -/
  greater : α → α → Bool
  /-- `a < b` -/
  less : α → α → Bool
  /-- `scale_avg(value, 1.0f / 1)` -/
  scaleOne : α → α
  /-- Multiplying by one changes nothing. -/
  scaleOne_eq : ∀ value, scaleOne value = value

namespace Elements

variable {α : Type*} (elements : Elements α)

/-- `RedOpTraits<op, T>::apply` -/
def apply : RedOp → α → α → α
  | .sum, a, b | .avg, a, b => elements.add a b
  | .max, a, b =>
      if elements.isNan a then a else if elements.isNan b then b
      else if elements.greater a b then a else b
  | .min, a, b =>
      if elements.isNan a then a else if elements.isNan b then b
      else if elements.less a b then a else b

/-- A call on one rank. -/
def oneRank (kChannels : ℕ) (launch : Launch α) (slotElems stepElems : ℕ) : SelfRing α :=
  ⟨kChannels, launch, slotElems, stepElems, elements.apply, elements.scaleOne⟩

/-- An element reduced with itself is doubled by `Sum` and `Avg`, and kept by `Max` and `Min`. -/
theorem outcome_oneRank {kChannels slotElems stepElems : ℕ} (launch : Launch α) (j : ℕ) :
    (elements.oneRank kChannels launch slotElems stepElems).outcome j =
      if launch.kind = .allGather ∨ launch.redop = .max ∨ launch.redop = .min then
        launch.input 0 j
      else elements.add (launch.input 0 j) (launch.input 0 j) := by
  unfold SelfRing.outcome SelfRing.finish oneRank
  cases launch.kind <;> cases launch.redop <;> simp [apply, elements.scaleOne_eq]

/-- A collective on one rank is the identity exactly if it is AllGather, reduces with `Max` or
`Min`, or meets only elements that are their own double. -/
theorem identity_iff {kChannels : ℕ} {launch : Launch α} {slotElems stepElems : ℕ}
    (channels : 0 < kChannels) (slots : 0 < slotElems) {base : ℕ → ℕ} {fifo : ℕ → ℕ → α}
    {output : ℕ → α} {state : SelfState α}
    (reach : StepSystem.Reachable (elements.oneRank kChannels launch slotElems stepElems).step
      ((elements.oneRank kChannels launch slotElems stepElems).initial base fifo output) state)
    (returned : (elements.oneRank kChannels launch slotElems stepElems).Returned state) :
    (∀ i < launch.count, state.output i = launch.input 0 i) ↔
      launch.kind = .allGather ∨ launch.redop = .max ∨ launch.redop = .min ∨
        ∀ i < launch.count,
          elements.add (launch.input 0 i) (launch.input 0 i) = launch.input 0 i := by
  have left (i : ℕ) (inside : i < launch.count) :=
    (SelfRing.output_eq_outcome slots channels reach returned inside).trans
      (elements.outcome_oneRank launch i)
  by_cases plain : launch.kind = .allGather ∨ launch.redop = .max ∨ launch.redop = .min
  · simp only [if_pos plain] at left
    refine ⟨fun _ => ?_, fun _ => left⟩
    rcases plain with gather | max | min
    · exact .inl gather
    · exact .inr (.inl max)
    · exact .inr (.inr (.inl min))
  · simp only [if_neg plain] at left
    refine ⟨fun same => .inr (.inr (.inr fun i inside => ?_)), fun condition i inside => ?_⟩
    · rw [← left i inside, same i inside]
    · rcases condition with gather | max | min | double
      · exact absurd (.inl gather) plain
      · exact absurd (.inr (.inl max)) plain
      · exact absurd (.inr (.inr min)) plain
      · rw [left i inside, double i inside]

/-- Natural numbers as elements. -/
def naturals : Elements ℕ where
  add := (· + ·)
  isNan := fun _ => false
  greater := fun a b => b < a
  less := fun a b => a < b
  scaleOne := id
  scaleOne_eq := fun _ => rfl

/-- The sum of one element over one rank. -/
def sumOne : Launch ℕ := ⟨.allReduce, .float, .sum, 1, fun _ _ => 5⟩

/-- The block sends its element to itself, reduces it and receives it back. -/
def sumOneLabels : List (ℕ × Action) :=
  [(0, .waitSend), (0, .move), (0, .postTail), (0, .next),
    (0, .pollTail), (0, .waitRecv), (0, .waitSend), (0, .move), (0, .postHead), (0, .reduce),
    (0, .postTail), (0, .next),
    (0, .pollTail), (0, .waitRecv), (0, .move), (0, .postHead), (0, .next), (0, .ret)]

theorem exists_sumOne : ∃ state,
    StepSystem.exec (naturals.oneRank 1 sumOne 128 1048576).step
      ((naturals.oneRank 1 sumOne 128 1048576).initial (fun _ => 0) (fun _ _ => 0) fun _ => 0)
      sumOneLabels = some state ∧
    (state.channel 0).block.live = false ∧ state.output 0 = 10 := by
  have checked : (StepSystem.exec (naturals.oneRank 1 sumOne 128 1048576).step
      ((naturals.oneRank 1 sumOne 128 1048576).initial (fun _ => 0) (fun _ _ => 0) fun _ => 0)
      sumOneLabels).any (fun state =>
        (state.channel 0).block.live = false ∧ state.output 0 = 10) = true := by
    decide +kernel
  obtain ⟨state, reached, holds⟩ := (Option.any_eq_true _ _).mp checked
  exact ⟨state, reached, of_decide_eq_true holds⟩

theorem returned_of_live {state : SelfState ℕ} (returned : (state.channel 0).block.live = false) :
    (naturals.oneRank 1 sumOne 128 1048576).Returned state := by
  intro channel inside
  obtain rfl : channel = 0 := Nat.lt_one_iff.mp inside
  exact returned

theorem identity_iff_sumOne : ∃ state,
    StepSystem.Reachable (naturals.oneRank 1 sumOne 128 1048576).step
        ((naturals.oneRank 1 sumOne 128 1048576).initial (fun _ => 0) (fun _ _ => 0) fun _ => 0)
        state ∧
      ((∀ i < sumOne.count, state.output i = sumOne.input 0 i) ↔
        sumOne.kind = .allGather ∨ sumOne.redop = .max ∨ sumOne.redop = .min ∨
          ∀ i < sumOne.count,
            naturals.add (sumOne.input 0 i) (sumOne.input 0 i) = sumOne.input 0 i) := by
  obtain ⟨state, reached, returned, -⟩ := exists_sumOne
  exact ⟨state, ⟨_, reached⟩, naturals.identity_iff (by decide) (by decide) ⟨_, reached⟩
    (returned_of_live returned)⟩

/-- One rank adds five to itself. -/
theorem sumOne_not_identity : ¬ ∀ state : SelfState ℕ,
    StepSystem.Reachable (naturals.oneRank 1 sumOne 128 1048576).step
        ((naturals.oneRank 1 sumOne 128 1048576).initial (fun _ => 0) (fun _ _ => 0) fun _ => 0)
        state →
      (naturals.oneRank 1 sumOne 128 1048576).Returned state →
      ∀ i < sumOne.count, state.output i = sumOne.input 0 i := by
  obtain ⟨state, reached, returned, doubled⟩ := exists_sumOne
  intro identity
  have same := identity state ⟨_, reached⟩ (returned_of_live returned) 0 (by decide)
  rw [doubled] at same
  exact absurd same (by decide)

end Elements
end NanoNccl
