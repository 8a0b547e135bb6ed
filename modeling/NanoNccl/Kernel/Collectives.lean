import NanoNccl.Kernel.Layout
import NanoNccl.Kernel.Progress

/-!
# The three collectives compute what they are for

Every run of one launch from drained edges that ends with all kernels returned leaves the result
of the collective in the output of every rank: the ring reduction for AllReduce and
ReduceScatter, the concatenation of the inputs for AllGather.
-/

namespace NanoNccl

variable {α : Type*}

/-- `op x_c (op x_(c-1) (… (op x_(c+2) x_(c+1))))`, ring positions taken modulo `nranks`. -/
def ringReduce (op : α → α → α) (nranks : ℕ) (x : ℕ → α) (c : ℕ) : α :=
  ((List.range (nranks - 1)).map fun k => x ((c + nranks - k) % nranks)).foldr op
    (x ((c + 1) % nranks))

namespace KernelRing

/-! ## Values along the ring -/

section Values

variable (net : KernelRing α) (launch : Launch α)

theorem pred_rank_sub {rank k : ℕ} (inside : k < net.kRanks) :
    ((rank + net.kRanks - 1) % net.kRanks + net.kRanks - k) % net.kRanks =
      (rank + net.kRanks - (k + 1)) % net.kRanks := by
  rw [Nat.add_sub_assoc inside.le, Nat.mod_add_mod,
    show rank + net.kRanks - 1 + (net.kRanks - k) = rank + net.kRanks - (k + 1) + net.kRanks by
      omega, Nat.add_mod_right]

/-- The reduction of `m` ranks that ends at `rank`. -/
theorem reduceChain_succ {rank m : ℕ} (rank_lt : rank < net.kRanks) (inside : m < net.kRanks)
    (op : α → α → α) (x : ℕ → α) :
    ((List.range (m + 1)).map fun k => x ((rank + net.kRanks - k) % net.kRanks)).foldr op
        (x ((rank + net.kRanks - (m + 1)) % net.kRanks)) =
      op (x rank) (((List.range m).map fun k => x
        (((rank + net.kRanks - 1) % net.kRanks + net.kRanks - k) % net.kRanks)).foldr op
          (x (((rank + net.kRanks - 1) % net.kRanks + net.kRanks - m) % net.kRanks))) := by
  rw [List.range_succ_eq_map, List.map_cons, List.foldr_cons, List.map_map,
    net.pred_rank_sub inside, Nat.sub_zero, Nat.add_mod_right, Nat.mod_eq_of_lt rank_lt]
  congr 2
  refine List.map_congr_left fun k member => ?_
  have k_lt : k < m := List.mem_range.mp member
  rw [net.pred_rank_sub (by omega)]
  rfl

/-- Before the last reducing round a rank holds a plain reduction. -/
theorem reduceValue_eq_chain {m rank : ℕ} (rank_lt : rank < net.kRanks)
    (inside : m < net.kRanks - 1) (j : ℕ) :
    net.reduceValue launch m rank j =
      ((List.range m).map fun k =>
        launch.input ((rank + net.kRanks - k) % net.kRanks) j).foldr (net.apply launch.redop)
          (launch.input ((rank + net.kRanks - m) % net.kRanks) j) := by
  induction m generalizing rank with
  | zero => simp [reduceValue, Nat.mod_eq_of_lt rank_lt]
  | succ m ih =>
      rw [net.reduceChain_succ rank_lt (by omega) (net.apply launch.redop)
        (fun rank => launch.input rank j)]
      simp only [reduceValue, if_pos inside]
      rw [ih (Nat.mod_lt _ (by omega)) (by omega)]

/-- The value of the last reducing round, with the scale applied once. -/
theorem reduceValue_last (two : 2 ≤ net.kRanks) {rank : ℕ} (rank_lt : rank < net.kRanks)
    (j : ℕ) :
    net.reduceValue launch (net.kRanks - 1) rank j =
      net.finish launch.redop (ringReduce (net.apply launch.redop) net.kRanks
        (fun rank => launch.input rank j) rank) := by
  obtain ⟨m, ranks⟩ : ∃ m, net.kRanks - 1 = m + 1 := ⟨net.kRanks - 2, by omega⟩
  have chain := net.reduceChain_succ rank_lt (show m < net.kRanks by omega)
    (net.apply launch.redop) (fun rank => launch.input rank j)
  have before := net.reduceValue_eq_chain launch
    (Nat.mod_lt (rank + net.kRanks - 1) (show 0 < net.kRanks by omega))
    (show m < net.kRanks - 1 by omega) j
  unfold ringReduce
  rw [ranks, show rank + 1 = rank + net.kRanks - (m + 1) by omega, chain]
  simp only [reduceValue]
  rw [if_neg (by omega), if_pos ranks.symm, before]

/-- After it the value is handed on unchanged. -/
theorem reduceValue_forward {rank d j : ℕ} (rank_lt : rank < net.kRanks) (two : 2 ≤ net.kRanks)
    (inside : d < net.kRanks) :
    net.reduceValue launch (net.kRanks - 1 + d) rank j =
      net.reduceValue launch (net.kRanks - 1) ((rank + net.kRanks - d) % net.kRanks) j := by
  induction d generalizing rank with
  | zero => simp [Nat.mod_eq_of_lt rank_lt]
  | succ d ih =>
      rw [show net.kRanks - 1 + (d + 1) = net.kRanks - 1 + d + 1 by omega]
      simp only [reduceValue]
      rw [if_neg (by omega), if_neg (by omega), ih (Nat.mod_lt _ (by omega)) (by omega),
        net.pred_rank_sub (by omega)]

end Values

/-! ## The entry that writes an element -/

section Entries

variable {net : KernelRing α} {launch : Launch α}

/-- The pass of a channel that works on element `x` of its share, the same on every rank. -/
theorem exists_pass (launch : Launch α) (ranks : 0 < net.kRanks) {channel x : ℕ}
    (channel_lt : channel < net.kChannels)
    (inside : x < (net.share launch channel).partCount) :
    ∃ elemOffset ≤ x, x < elemOffset + net.advance launch channel elemOffset ∧
      ∀ rank, ∀ p < net.rounds launch, ∀ j,
        (net.roundAt launch (rank, channel) elemOffset p).Stores j →
          ∃ entry ∈ net.plan launch (rank, channel), entry.op.Covers j ∧
            entry.op.prim = (net.roundAt launch (rank, channel) elemOffset p).prim ∧
            entry.sent (j - entry.op.dst) =
              (net.roundAt launch (rank, channel) elemOffset p).sent
                (j - (net.roundAt launch (rank, channel) elemOffset p).dst) := by
  obtain ⟨offsets, passes, -, -, cover⟩ := net.exists_passOffsets launch ranks channel_lt
  obtain ⟨elemOffset, member, low, high⟩ := cover x inside
  refine ⟨elemOffset, low, high, fun rank p p_lt j stores => ?_⟩
  unfold plan
  rw [passes]
  exact exists_covers_planEntries launch.dtype _ member p_lt stores

/-- Every ring position is some number of places behind every other. -/
theorem exists_behind {nranks rank c : ℕ} (rank_lt : rank < nranks) (c_lt : c < nranks) :
    ∃ d < nranks, (rank + nranks - d) % nranks = c := by
  rcases Nat.lt_or_ge rank c with below | above
  · refine ⟨rank + nranks - c, by omega, ?_⟩
    rw [show rank + nranks - (rank + nranks - c) = c by omega, Nat.mod_eq_of_lt c_lt]
  · refine ⟨rank - c, by omega, ?_⟩
    rw [show rank + nranks - (rank - c) = c + nranks by omega, Nat.add_mod_right,
      Nat.mod_eq_of_lt c_lt]

/-- AllReduce: every element belongs to one ring chunk, and every rank writes its last value. -/
theorem exists_entry_allReduce (kind : launch.kind = .allReduce) (two : 2 ≤ net.kRanks)
    (channels : 0 < net.kChannels) {j : ℕ} (inside : j < launch.count) :
    ∃ c < net.kRanks, ∃ channel < net.kChannels, ∀ rank < net.kRanks,
      ∃ entry ∈ net.plan launch (rank, channel), entry.op.Covers j ∧
        entry.op.prim ≠ .recvReduceCopy ∧
        entry.sent (j - entry.op.dst) = net.reduceValue launch (net.kRanks - 1) c j := by
  have share (channel : ℕ) :
      net.share launch channel = (net.cbdPart launch channel).toChannelPart := by
    simp only [KernelRing.share, kind]
  obtain ⟨channel, channel_lt, low, high⟩ := (net.shares launch channels).cover j inside
  obtain ⟨elemOffset, before, after, entries⟩ := exists_pass launch
    (show 0 < net.kRanks by omega) channel_lt
    (show j - (net.share launch channel).partOffset < _ by omega)
  have advance : net.advance launch channel elemOffset =
      net.kRanks * net.passChunk launch (net.cbdPart launch channel) elemOffset := by
    simp only [KernelRing.advance, kind, passChunk]
  rw [share] at low high before after
  rw [advance] at after
  obtain ⟨c, c_lt, cellLow, cellHigh⟩ := Tiling.exists_cell_of_width
    (show j - (net.cbdPart launch channel).partOffset - elemOffset <
      net.kRanks * net.passChunk launch (net.cbdPart launch channel) elemOffset by omega)
  refine ⟨c, c_lt, channel, channel_lt, fun rank rank_lt => ?_⟩
  -- The storing rounds run from `kRanks - 1` on; this one works on chunk `c`.
  obtain ⟨d, d_lt, behind⟩ := exists_behind rank_lt c_lt
  have chunk : allReduceChunk net.kRanks rank (net.kRanks - 1 + d) = c := by
    rw [← behind]
    unfold allReduceChunk
    congr 1
    omega
  obtain ⟨stores, value⟩ : (net.allReduceRound launch (net.cbdPart launch channel) rank elemOffset
      (net.kRanks - 1 + d)).Stores j ∧ _ :=
    allReduceRound_stores_of_chunk two (by omega) chunk (by omega) (by omega) high
  have round : net.roundAt launch (rank, channel) elemOffset (net.kRanks - 1 + d) =
      net.allReduceRound launch (net.cbdPart launch channel) rank elemOffset
        (net.kRanks - 1 + d) := by
    simp only [roundAt, kind]
  have p_lt : net.kRanks - 1 + d < net.rounds launch := by
    simp only [rounds, kind]
    omega
  obtain ⟨entry, planned, covers, prim, sent⟩ := entries rank _ p_lt j (round ▸ stores)
  refine ⟨entry, planned, covers, ?_, ?_⟩
  · rw [prim, round]
    simp only [allReduceRound, allReducePrim]
    split_ifs <;> simp
  · rw [sent, round, value, net.reduceValue_forward launch rank_lt two d_lt, behind]

/-- AllGather: every rank writes the input of every rank into that rank's block. -/
theorem exists_entry_allGather (kind : launch.kind = .allGather) (two : 2 ≤ net.kRanks)
    (channels : 0 < net.kChannels) {x : ℕ} (inside : x < launch.count) :
    ∃ channel < net.kChannels, ∀ rank < net.kRanks, ∀ source < net.kRanks,
      ∃ entry ∈ net.plan launch (rank, channel), entry.op.Covers (source * launch.count + x) ∧
        entry.op.prim ≠ .recvReduceCopy ∧
        entry.sent (source * launch.count + x - entry.op.dst) = launch.input source x := by
  have share (channel : ℕ) : net.share launch channel = net.channelPart launch channel := by
    simp only [KernelRing.share, kind]
  obtain ⟨channel, channel_lt, low, high⟩ := (net.shares launch channels).cover x inside
  obtain ⟨elemOffset, before, after, entries⟩ := exists_pass launch
    (show 0 < net.kRanks by omega) channel_lt
    (show x - (net.share launch channel).partOffset < _ by omega)
  have advance : net.advance launch channel elemOffset =
      passWork (launch.fifoArgs 0) (net.channelPart launch channel) elemOffset := by
    simp only [KernelRing.advance, kind]
  rw [share] at low high before after
  rw [advance] at after
  refine ⟨channel, channel_lt, fun rank rank_lt source source_lt => ?_⟩
  -- A rank copies its own block in round 0 and handles the block of `d` places back in round
  -- `d + 1`.
  obtain ⟨d, d_lt, behind⟩ := exists_behind rank_lt source_lt
  obtain ⟨p, p_lt, p_ne, handles⟩ : ∃ p < net.kRanks + 1, p ≠ 1 ∧
      allGatherSource net.kRanks rank p = source := by
    by_cases own : d = 0
    · subst own
      refine ⟨0, by omega, by omega, ?_⟩
      rw [Nat.sub_zero, Nat.add_mod_right, Nat.mod_eq_of_lt rank_lt] at behind
      simpa [allGatherSource] using behind
    · refine ⟨d + 1, by omega, by omega, ?_⟩
      rw [← behind]
      simp only [allGatherSource, Nat.add_eq_zero_iff, one_ne_zero, and_false, if_false]
      congr 1
      omega
  obtain ⟨stores, value⟩ : (net.allGatherRound launch (net.channelPart launch channel) rank
      elemOffset p).Stores (source * launch.count + x) ∧ _ :=
    allGatherRound_stores_of_source p_ne handles (by omega) (by omega)
  have round : net.roundAt launch (rank, channel) elemOffset p =
      net.allGatherRound launch (net.channelPart launch channel) rank elemOffset p := by
    simp only [roundAt, kind]
  have inRounds : p < net.rounds launch := by
    simpa only [rounds, kind] using p_lt
  obtain ⟨entry, planned, covers, prim, sent⟩ := entries rank p inRounds _ (round ▸ stores)
  refine ⟨entry, planned, covers, ?_, ?_⟩
  · rw [prim, round]
    simp only [allGatherRound, allGatherPrim]
    split_ifs <;> simp
  · rw [sent, round, value]

/-- ReduceScatter: every rank writes the last value of its own chunk. -/
theorem exists_entry_reduceScatter (kind : launch.kind = .reduceScatter) (two : 2 ≤ net.kRanks)
    (channels : 0 < net.kChannels) {j : ℕ} (inside : j < launch.count) :
    ∃ channel < net.kChannels, ∀ rank < net.kRanks,
      ∃ entry ∈ net.plan launch (rank, channel), entry.op.Covers j ∧
        entry.sent (j - entry.op.dst) =
          net.reduceValue launch (net.kRanks - 1) rank (rank * launch.count + j) := by
  have share (channel : ℕ) : net.share launch channel = net.channelPart launch channel := by
    simp only [KernelRing.share, kind]
  obtain ⟨channel, channel_lt, low, high⟩ := (net.shares launch channels).cover j inside
  obtain ⟨elemOffset, before, after, entries⟩ := exists_pass launch
    (show 0 < net.kRanks by omega) channel_lt
    (show j - (net.share launch channel).partOffset < _ by omega)
  have advance : net.advance launch channel elemOffset =
      passWork (launch.fifoArgs 0) (net.channelPart launch channel) elemOffset := by
    simp only [KernelRing.advance, kind]
  rw [share] at low high before after
  rw [advance] at after
  refine ⟨channel, channel_lt, fun rank rank_lt => ?_⟩
  obtain ⟨stores, value⟩ : (net.reduceScatterRound launch (net.channelPart launch channel) rank
      elemOffset (net.kRanks - 1)).Stores j ∧ _ :=
    reduceScatterRound_stores_last two rank_lt (by omega) (by omega)
  have round : net.roundAt launch (rank, channel) elemOffset (net.kRanks - 1) =
      net.reduceScatterRound launch (net.channelPart launch channel) rank elemOffset
        (net.kRanks - 1) := by
    simp only [roundAt, kind]
  have p_lt : net.kRanks - 1 < net.rounds launch := by
    simp only [rounds, kind]
    omega
  obtain ⟨entry, planned, covers, -, sent⟩ := entries rank _ p_lt j (round ▸ stores)
  refine ⟨entry, planned, covers, ?_⟩
  rw [sent, round, value]

/-- ReduceScatter reads inside the input buffers. -/
theorem load_le_reduceScatter (kind : launch.kind = .reduceScatter) (two : 2 ≤ net.kRanks)
    {id : BlockId} (id_channel : id.2 < net.kChannels) {entry : Entry α}
    (planned : entry ∈ net.plan launch id) :
    entry.op.src + entry.op.work ≤ net.kRanks * launch.count := by
  have bound := (net.shares launch (by omega)).inside id.2 id_channel
  obtain ⟨elemOffset, small, p, inside, time, found⟩ := mem_plan (by omega) id_channel planned
  obtain ⟨piece, fits, -, src, -⟩ := Round.mem_entries found
  simp only [share, kind] at bound small
  simp only [roundAt, kind, reduceScatterRound] at fits src
  have short := (passWork_le (launch.fifoArgs id.1) (net.channelPart launch id.2) elemOffset).2
  have chunk : (reduceScatterChunk net.kRanks id.1 p + 1) * launch.count ≤
      net.kRanks * launch.count :=
    Nat.mul_le_mul_right _ (Nat.mod_lt _ (by omega))
  rw [Nat.add_mul, Nat.one_mul] at chunk
  omega

end Entries

/-! ## The collectives -/

section Results

variable {net : KernelRing α} {launch : Launch α} {state : RingState α} {base : BlockId → ℕ}
  {output : ℕ × ℕ → ℕ → α} {entry : Entry α}

theorem finalHistory_of_ne (entry : Entry α) (plain : entry.op.prim ≠ .recvReduceCopy) (i : ℕ) :
    finalHistory launch entry i = [entry.sent i] := by
  unfold finalHistory
  rw [if_neg]
  unfold twoPass
  cases prim : entry.op.prim <;> simp [Prim.reduces, Prim.sends]
  exact absurd prim plain

theorem length_finalHistory (launch : Launch α) (entry : Entry α) (i : ℕ) :
    ∃ copies : List α, copies.length ≤ 1 ∧ finalHistory launch entry i =
      copies ++ [entry.sent i] := by
  unfold finalHistory
  split
  · exact ⟨[entry.recv i], le_rfl, rfl⟩
  · exact ⟨[], Nat.zero_le 1, rfl⟩

theorem RankFinished.started_eq {rank : ℕ} (single : net.launches = [launch])
    (finished : RankFinished net state rank) : state.started rank = 1 := by
  rw [finished.1, single]
  rfl

/-- Outside the output buffer nothing is written and nothing changes. -/
theorem Delivering.outside (two : 2 ≤ net.kRanks)
    (inv : Delivering net launch base output state) {rank j : ℕ} (rank_lt : rank < net.kRanks)
    (outside : net.outputCount launch ≤ j) :
    state.store.writes (rank, 0) j = [] ∧ state.store.output (rank, 0) j = output (rank, 0) j := by
  have unwritten : state.store.writes (rank, 0) j = [] := by
    refine inv.untouched rank j fun channel channel_lt entry planned covers => ?_
    have inside := covers_lt two rank_lt channel_lt planned covers
    omega
  refine ⟨unwritten, ?_⟩
  rw [inv.consistent, unwritten]
  rfl

end Results

/-- AllReduce: every rank holds the same ring reduction in every element, written once, and
nothing else is written. -/
theorem allReduce_correct (net : KernelRing α) (launch : Launch α)
    (single : net.launches = [launch]) (kind : launch.kind = .allReduce) (two : 2 ≤ net.kRanks)
    (channels : 0 < net.kChannels) (base : BlockId → ℕ) (fifo : BlockId → ℕ → α)
    (output : ℕ × ℕ → ℕ → α) (state : RingState α)
    (reach : StepSystem.Reachable net.step (net.initial base fifo output) state)
    (returned : ∀ rank < net.kRanks, RankFinished net state rank) :
    (∀ i < launch.count, ∃ c < net.kRanks, ∀ rank < net.kRanks,
      state.store.output (rank, 0) i =
          net.finish launch.redop (ringReduce (net.apply launch.redop) net.kRanks
            (fun r => launch.input r i) c) ∧
        state.store.writes (rank, 0) i = [state.store.output (rank, 0) i]) ∧
      ∀ rank < net.kRanks, ∀ i, launch.count ≤ i →
        state.store.writes (rank, 0) i = [] ∧
          state.store.output (rank, 0) i = output (rank, 0) i := by
  have inv := delivering_reachable (planOk two) single two reach
  constructor
  · intro i inside
    obtain ⟨c, c_lt, channel, channel_lt, entries⟩ :=
      exists_entry_allReduce kind two channels inside
    refine ⟨c, c_lt, fun rank rank_lt => ?_⟩
    obtain ⟨entry, planned, covers, plain, sent⟩ := entries rank rank_lt
    have finished := returned rank rank_lt
    have written := inv.output_eq single rank_lt channel_lt (finished.started_eq single)
      finished.2 planned covers
    have logged := inv.writes_eq single rank_lt channel_lt (finished.started_eq single)
      finished.2 planned covers
    constructor
    · rw [written, sent, net.reduceValue_last launch two c_lt]
    · rw [logged, written, finalHistory_of_ne entry plain]
  · intro rank rank_lt i outside
    refine inv.outside two rank_lt ?_
    simpa only [outputCount, kind] using outside

/-- One collective on three ranks and one channel. -/
def tripleRing (kind : Collective) (count : ℕ) : KernelRing ℕ where
  kRanks := 3
  kChannels := 1
  launches :=
    [{ kind, dtype := .float, redop := .sum, count, input := fun rank j => 10 * rank + j }]
  apply := fun _ left right => left + right
  scaleAvg := fun value => value

/-- Initial state of `tripleRing`. -/
def tripleStart (kind : Collective) (count : ℕ) : RingState ℕ :=
  (tripleRing kind count).initial (fun _ => 0) (fun _ _ => 0) fun _ _ => 0

/-- The three ranks go through the same rounds of actions, one rank after the other in each. -/
def tripleRounds (rounds : List (List Action)) : List RingLabel :=
  [.launch 0, .launch 1, .launch 2] ++ rounds.flatMap fun actions =>
    (List.range 3).flatMap fun rank => actions.map (RingLabel.block (rank, 0))

/-- Every rank has returned. -/
def tripleReturned (kind : Collective) (count : ℕ) (state : RingState ℕ) : Bool :=
  decide (∀ rank < (tripleRing kind count).kRanks, RankFinished (tripleRing kind count) state rank)

/-- AllReduce in two slices a chunk, a large one and a small one. -/
def allReduceRounds : List (List Action) :=
  let send := [.waitSend, .move, .postTail, .next]
  let forward := [.waitRecv, .waitSend, .move, .postHead, .postTail, .next]
  let small := [.waitRecv, .waitSend, .move, .postHead, .reduce, .postTail, .next]
  let recv := [.waitRecv, .move, .postHead, .next]
  [send ++ send, [.pollTail], forward ++ small, [.pollTail, .pollHead], forward ++ small,
    [.pollTail, .pollHead], forward ++ forward, [.pollTail], recv ++ recv ++ [.ret]]

/-- AllReduce of 196656 elements on three ranks. -/
theorem allReduce_correct_triple : ∃ state,
    StepSystem.Reachable (tripleRing .allReduce 196656).step (tripleStart .allReduce 196656) state ∧
      ∀ rank < 3, state.store.output (rank, 0) 65540 = 196650 := by
  have reached : (StepSystem.exec (tripleRing .allReduce 196656).step
      (tripleStart .allReduce 196656) (tripleRounds allReduceRounds)).any
        (tripleReturned .allReduce 196656) = true := by
    decide +kernel
  obtain ⟨state, execution, returned⟩ := (Option.any_eq_true _ _).mp reached
  refine ⟨state, ⟨_, execution⟩, fun rank rank_lt => ?_⟩
  have correct := allReduce_correct (tripleRing .allReduce 196656) _ rfl rfl (by decide)
    (by decide) (fun _ => 0) (fun _ _ => 0) (fun _ _ => 0) state ⟨_, execution⟩
    (of_decide_eq_true returned)
  obtain ⟨c, c_lt, values⟩ := correct.1 65540 (by decide)
  rw [(values rank rank_lt).1]
  have positions : ∀ c < 3, (tripleRing .allReduce 196656).finish .sum
      (ringReduce ((tripleRing .allReduce 196656).apply .sum) 3 (fun r => 10 * r + 65540) c) =
        196650 := by
    decide
  exact positions c c_lt

/-- ReduceScatter: every rank holds the ring reduction of its own chunk; the last write of each
element is the result, after at most one partial copy, and no read leaves the input. -/
theorem reduceScatter_correct (net : KernelRing α) (launch : Launch α)
    (single : net.launches = [launch]) (kind : launch.kind = .reduceScatter)
    (two : 2 ≤ net.kRanks) (channels : 0 < net.kChannels) (base : BlockId → ℕ)
    (fifo : BlockId → ℕ → α) (output : ℕ × ℕ → ℕ → α) (state : RingState α)
    (reach : StepSystem.Reachable net.step (net.initial base fifo output) state)
    (returned : ∀ rank < net.kRanks, RankFinished net state rank) :
    ∀ rank < net.kRanks,
      (∀ i < launch.count,
        state.store.output (rank, 0) i =
            net.finish launch.redop (ringReduce (net.apply launch.redop) net.kRanks
              (fun r => launch.input r (rank * launch.count + i)) rank) ∧
          ∃ copies : List α, copies.length ≤ 1 ∧ state.store.writes (rank, 0) i =
            copies ++ [state.store.output (rank, 0) i]) ∧
      (∀ i, launch.count ≤ i → state.store.writes (rank, 0) i = [] ∧
        state.store.output (rank, 0) i = output (rank, 0) i) ∧
      ∀ load ∈ state.store.loads (rank, 0), load.1 + load.2 ≤ net.kRanks * launch.count := by
  have inv := delivering_reachable (planOk two) single two reach
  intro rank rank_lt
  refine ⟨?_, ?_, ?_⟩
  · intro i inside
    obtain ⟨channel, channel_lt, entries⟩ := exists_entry_reduceScatter kind two channels inside
    obtain ⟨entry, planned, covers, sent⟩ := entries rank rank_lt
    have finished := returned rank rank_lt
    have written := inv.output_eq single rank_lt channel_lt (finished.started_eq single)
      finished.2 planned covers
    have logged := inv.writes_eq single rank_lt channel_lt (finished.started_eq single)
      finished.2 planned covers
    obtain ⟨copies, few, history⟩ := length_finalHistory launch entry (i - entry.op.dst)
    refine ⟨?_, copies, few, ?_⟩
    · rw [written, sent, net.reduceValue_last launch two rank_lt]
    · rw [logged, written, history]
  · intro i outside
    refine inv.outside two rank_lt ?_
    simpa only [outputCount, kind] using outside
  · intro load member
    obtain ⟨channel, channel_lt, entry, planned, -, rfl⟩ := inv.loads rank load member
    exact load_le_reduceScatter kind two channel_lt planned

/-- ReduceScatter in two slices a chunk, a large one and a small one. -/
def reduceScatterRounds : List (List Action) :=
  let send := [.waitSend, .move, .postTail, .next]
  [send ++ send, [.pollTail], [.waitRecv, .waitSend, .move, .postHead, .postTail, .next],
    [.waitRecv, .waitSend, .move, .postHead, .reduce, .postTail, .next], [.pollTail],
    [.waitRecv, .move, .postHead, .next], [.waitRecv, .move, .postHead, .reduce, .next, .ret]]

/-- ReduceScatter of 65538 elements per rank on three ranks; the last two make a slice. -/
theorem reduceScatter_correct_triple : ∃ state,
    StepSystem.Reachable (tripleRing .reduceScatter 65538).step (tripleStart .reduceScatter 65538)
        state ∧
      state.store.output (1, 0) 0 = 196644 ∧ state.store.output (1, 0) 65537 = 393255 := by
  have reached : (StepSystem.exec (tripleRing .reduceScatter 65538).step
      (tripleStart .reduceScatter 65538) (tripleRounds reduceScatterRounds)).any
        (tripleReturned .reduceScatter 65538) = true := by
    decide +kernel
  obtain ⟨state, execution, returned⟩ := (Option.any_eq_true _ _).mp reached
  refine ⟨state, ⟨_, execution⟩, ?_⟩
  have correct := reduceScatter_correct (tripleRing .reduceScatter 65538) _ rfl rfl (by decide)
    (by decide) (fun _ => 0) (fun _ _ => 0) (fun _ _ => 0) state ⟨_, execution⟩
    (of_decide_eq_true returned) 1 (by decide)
  refine ⟨?_, ?_⟩
  · rw [(correct.1 0 (by decide)).1]
    decide
  · rw [(correct.1 65537 (by decide)).1]
    decide

/-- AllGather: every rank holds the input of every rank in that rank's block, written once, and
nothing else is written. -/
theorem allGather_correct (net : KernelRing α) (launch : Launch α)
    (single : net.launches = [launch]) (kind : launch.kind = .allGather) (two : 2 ≤ net.kRanks)
    (channels : 0 < net.kChannels) (base : BlockId → ℕ) (fifo : BlockId → ℕ → α)
    (output : ℕ × ℕ → ℕ → α) (state : RingState α)
    (reach : StepSystem.Reachable net.step (net.initial base fifo output) state)
    (returned : ∀ rank < net.kRanks, RankFinished net state rank) :
    ∀ rank < net.kRanks,
      (∀ source < net.kRanks, ∀ i < launch.count,
        state.store.output (rank, 0) (source * launch.count + i) = launch.input source i ∧
          state.store.writes (rank, 0) (source * launch.count + i) = [launch.input source i]) ∧
      ∀ j, net.kRanks * launch.count ≤ j → state.store.writes (rank, 0) j = [] ∧
        state.store.output (rank, 0) j = output (rank, 0) j := by
  have inv := delivering_reachable (planOk two) single two reach
  intro rank rank_lt
  constructor
  · intro source source_lt i inside
    obtain ⟨channel, channel_lt, entries⟩ := exists_entry_allGather kind two channels inside
    obtain ⟨entry, planned, covers, plain, sent⟩ := entries rank rank_lt source source_lt
    have finished := returned rank rank_lt
    have written := inv.output_eq single rank_lt channel_lt (finished.started_eq single)
      finished.2 planned covers
    have logged := inv.writes_eq single rank_lt channel_lt (finished.started_eq single)
      finished.2 planned covers
    constructor
    · rw [written, sent]
    · rw [logged, finalHistory_of_ne entry plain, sent]
  · intro j outside
    refine inv.outside two rank_lt ?_
    simpa only [outputCount, kind] using outside

/-- AllGather in two slices a chunk. -/
def allGatherRounds : List (List Action) :=
  let send := [.waitSend, .move, .postTail, .next]
  let forward := [.waitRecv, .waitSend, .move, .postHead, .postTail, .next]
  let recv := [.waitRecv, .move, .postHead, .next]
  [[.move, .next] ++ send ++ send, [.pollTail], forward ++ forward, [.pollTail],
    recv ++ recv ++ [.ret]]

/-- AllGather of 65538 elements per rank on three ranks: rank 0 holds the last element of both
others, in blocks 1 and 2. -/
theorem allGather_correct_triple : ∃ state,
    StepSystem.Reachable (tripleRing .allGather 65538).step (tripleStart .allGather 65538) state ∧
      state.store.output (0, 0) (65538 + 65537) = 65547 ∧
      state.store.output (0, 0) (2 * 65538 + 65537) = 65557 := by
  have reached : (StepSystem.exec (tripleRing .allGather 65538).step
      (tripleStart .allGather 65538) (tripleRounds allGatherRounds)).any
        (tripleReturned .allGather 65538) = true := by
    decide +kernel
  obtain ⟨state, execution, returned⟩ := (Option.any_eq_true _ _).mp reached
  refine ⟨state, ⟨_, execution⟩, ?_⟩
  have correct := allGather_correct (tripleRing .allGather 65538) _ rfl rfl (by decide)
    (by decide) (fun _ => 0) (fun _ _ => 0) (fun _ _ => 0) state ⟨_, execution⟩
    (of_decide_eq_true returned) 0 (by decide)
  exact ⟨(correct.1 1 (by decide) 65537 (by decide)).1,
    (correct.1 2 (by decide) 65537 (by decide)).1⟩

end KernelRing
end NanoNccl
