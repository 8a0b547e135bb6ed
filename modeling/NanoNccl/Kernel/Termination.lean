import NanoNccl.Kernel.Progress
import NanoNccl.Lib.Counting
import NanoNccl.Lib.Fairness

/-!
# The ring always finishes

Apart from refreshing a cached counter, the blocks of all ranks together make a bounded number of
moves. So a run refreshes only from some point on, and because the ring cannot deadlock, a schedule
that neglects no block forever brings every rank to the end of its last launch.
-/

namespace NanoNccl

/-- Stages the current slice operation has passed. -/
def SliceState.stages (slice : SliceState) : ℕ :=
  slice.waitedRecv.toNat + slice.waitedSend.toNat + slice.moved.toNat + slice.reduced.toNat +
    slice.postedHead.toNat + slice.postedTail.toNat

theorem SliceState.stages_le (slice : SliceState) : slice.stages ≤ 6 := by
  have bound (flag : Bool) : flag.toNat ≤ 1 := Bool.toNat_le flag
  have := bound slice.waitedRecv
  have := bound slice.waitedSend
  have := bound slice.moved
  have := bound slice.reduced
  have := bound slice.postedHead
  have := bound slice.postedTail
  unfold stages
  omega

/-- Moves left in a queue of slice operations, each with six stages and the move to the next. -/
def queueMoves (slice : SliceState) : List SliceOp → ℕ
  | [] => 0
  | _ :: rest => 7 * rest.length + (7 - slice.stages)

theorem queueMoves_le (slice : SliceState) (ops : List SliceOp) :
    queueMoves slice ops ≤ 7 * ops.length := by
  cases ops with
  | nil => exact le_rfl
  | cons op rest =>
      simp only [queueMoves, List.length_cons]
      omega

/-- Moves a block has left in its kernel, the return included. -/
def Block.moves (block : Block) : ℕ :=
  if block.live then queueMoves block.slice block.ops + 1 else 0

namespace KernelRing

variable {α : Type*} (net : KernelRing α)

/-- Moves of one launch on one rank: the launch itself and its blocks. -/
def launchMoves (rank : ℕ) (launch : Launch α) : ℕ :=
  1 + ∑ channel ∈ Finset.range net.kChannels, (7 * (net.ops launch (rank, channel)).length + 1)

/-- Moves a rank has left: the launches it has not started, and its blocks. -/
def rankMoves (state : RingState α) (rank : ℕ) : ℕ :=
  ((net.launches.drop (state.started rank)).map (net.launchMoves rank)).sum +
    ∑ channel ∈ Finset.range net.kChannels, (state.block (rank, channel)).moves

/-- Moves the whole ring has left. -/
def movesLeft (state : RingState α) : ℕ :=
  ∑ rank ∈ Finset.range net.kRanks, net.rankMoves state rank

variable {net} {state state' : RingState α} {id : BlockId} {launch : Launch α} {op : SliceOp}
  {rest : List SliceOp}

/-! ## Every move is counted -/

theorem moves_enter (quiet : (state.block id).live = false) (index : ℕ) :
    (net.enter launch index id (state.block id)).moves ≤ 7 * (net.ops launch id).length + 1 := by
  unfold enter Block.moves
  split
  · simp [quiet]
  · simp only [if_true]
    have := queueMoves_le {} (net.ops launch id)
    omega

/-- An action of the current slice operation uses up a move, unless it is a refresh. -/
theorem moves_act (live : (state.block id).live = true)
    (queue : (state.block id).ops = op :: rest) {action : Action}
    (enabled : guard launch (state.block id) op action = true) :
    (net.act state id (state.block id) op rest action).moves +
      (if isPoll (.block id action) then 0 else 1) ≤ (state.block id).moves := by
  have bound := (state.block id).slice.stages_le
  unfold Block.moves
  rw [act_live, live]
  cases action with
  | ret => simp [guard] at enabled
  | next =>
      have later := queueMoves_le {} rest
      have now : queueMoves (state.block id).slice (op :: rest) =
          7 * rest.length + (7 - (state.block id).slice.stages) := rfl
      simp only [act, isPoll, queue, if_true, Bool.false_eq_true, if_false]
      omega
  | pollTail | pollHead => simp [act, isPoll, queue, queueMoves]
  | waitRecv | waitSend | move | reduce | postHead | postTail =>
      simp only [guard, Bool.and_eq_true, Bool.not_eq_true'] at enabled
      simp only [SliceState.stages] at bound
      simp only [act, isPoll, queue, queueMoves, SliceState.stages, if_true, enabled,
        Bool.toNat_true, Bool.toNat_false] at bound ⊢
      simp only [Bool.false_eq_true, if_false]
      omega

theorem rankMoves_of_ne {rank : ℕ} (started : state'.started rank = state.started rank)
    (blocks : ∀ channel < net.kChannels,
      state'.block (rank, channel) = state.block (rank, channel)) :
    net.rankMoves state' rank = net.rankMoves state rank := by
  unfold rankMoves
  rw [started]
  congr 1
  refine Finset.sum_congr rfl fun channel member => ?_
  rw [blocks channel (Finset.mem_range.mp member)]

/-- A step of one block changes the moves of its rank by those of the block. -/
theorem rankMoves_update {next : Block} {cost : ℕ} (id_channel : id.2 < net.kChannels)
    (started : state'.started = state.started)
    (blocks : state'.block = Function.update state.block id next)
    (drops : next.moves + cost ≤ (state.block id).moves) :
    net.rankMoves state' id.1 + cost ≤ net.rankMoves state id.1 := by
  have sums : ∑ channel ∈ Finset.range net.kChannels, (state'.block (id.1, channel)).moves + cost ≤
      ∑ channel ∈ Finset.range net.kChannels, (state.block (id.1, channel)).moves := by
    refine Counting.sum_drops (Finset.mem_range.mpr id_channel) (fun channel _ other => ?_) ?_
    · rw [blocks, Function.update_of_ne fun same => other (congrArg Prod.snd same)]
    · simpa [blocks] using drops
  unfold rankMoves
  rw [started]
  omega

theorem movesLeft_update {next : Block} {cost : ℕ} (id_rank : id.1 < net.kRanks)
    (id_channel : id.2 < net.kChannels) (started : state'.started = state.started)
    (blocks : state'.block = Function.update state.block id next)
    (drops : next.moves + cost ≤ (state.block id).moves) :
    net.movesLeft state' + cost ≤ net.movesLeft state := by
  refine Counting.sum_drops (Finset.mem_range.mpr id_rank) (fun rank _ other => ?_)
    (rankMoves_update id_channel started blocks drops)
  refine rankMoves_of_ne (congrFun started rank) fun channel _ => ?_
  rw [blocks, Function.update_of_ne fun same => other (congrArg Prod.fst same)]

/-- Starting a launch is paid for by the launch. -/
theorem rankMoves_launch {rank : ℕ} (found : net.launches[state.started rank]? = some launch)
    (idle : net.idle state rank) (started : state'.started rank = state.started rank + 1)
    (blocks : ∀ channel < net.kChannels, state'.block (rank, channel) =
      net.enter launch (state.started rank) (rank, channel) (state.block (rank, channel))) :
    net.rankMoves state' rank + 1 ≤ net.rankMoves state rank := by
  obtain ⟨inside, rfl⟩ := List.getElem?_eq_some_iff.mp found
  have entered : ∑ channel ∈ Finset.range net.kChannels, (state'.block (rank, channel)).moves ≤
      ∑ channel ∈ Finset.range net.kChannels,
        (7 * (net.ops net.launches[state.started rank] (rank, channel)).length + 1) := by
    refine Finset.sum_le_sum fun channel member => ?_
    have channel_lt := Finset.mem_range.mp member
    rw [blocks channel channel_lt]
    exact moves_enter (idle channel channel_lt) _
  unfold rankMoves
  rw [started, List.drop_eq_getElem_cons inside, List.map_cons, List.sum_cons, launchMoves]
  omega

/-- Every step but a refresh uses up a move. -/
theorem movesLeft_step {label : RingLabel} (stepped : net.step state label = some state') :
    net.movesLeft state' + (if isPoll label then 0 else 1) ≤ net.movesLeft state := by
  cases label with
  | launch rank =>
      obtain ⟨launch, found, rank_lt, idle, rfl⟩ := step_launch stepped
      refine Counting.sum_drops (Finset.mem_range.mpr rank_lt) (fun other _ distinct => ?_)
        (rankMoves_launch found idle (Function.update_self _ _ _) fun channel channel_lt => ?_)
      · refine rankMoves_of_ne (Function.update_of_ne distinct _ _) fun channel _ => ?_
        simp [distinct]
      · simp [channel_lt]
  | block id action =>
      obtain ⟨id_rank, id_channel, live, launch, found, ended | acted⟩ := step_block stepped
      · obtain ⟨empty, rfl, rfl⟩ := ended
        refine movesLeft_update id_rank id_channel rfl rfl ?_
        simp [Block.moves, retire, live, empty, queueMoves, isPoll]
      · obtain ⟨op, rest, queue, enabled, rfl⟩ := acted
        exact movesLeft_update id_rank id_channel (perform_started _) (perform_block _)
          (moves_act live queue enabled)

/-! ## Refreshing a cached counter -/

/-- The two waits of a slice operation. -/
inductive WaitSide
  /-- For data. -/
  | recv
  /-- For credit. -/
  | send

namespace WaitSide

/-- The refresh of the cached counter. -/
def poll : WaitSide → Action
  | recv => .pollTail
  | send => .pollHead

/-- The end of the wait. -/
def wait : WaitSide → Action
  | recv => .waitRecv
  | send => .waitSend

/-- The slice operation still waits. -/
def pending (op : SliceOp) (slice : SliceState) : WaitSide → Bool
  | recv => op.prim.recvs && !slice.waitedRecv
  | send => op.prim.sends && !slice.waitedSend

/-- The cached counter. -/
def cache (block : Block) : WaitSide → ℕ
  | recv => block.recvTailCache
  | send => block.sendHeadCache

/-- The counter itself. -/
def counter (net : KernelRing α) (state : RingState α) (id : BlockId) : WaitSide → ℕ
  | recv => state.tail (net.pred id)
  | send => state.head id

/-- The counter the wait needs. -/
def need (block : Block) : WaitSide → ℕ
  | recv => block.recvStep + kSliceSteps
  | send => block.sendStep + kSliceSteps - kFifoSteps

theorem guard_poll (launch : Launch α) (block : Block) (op : SliceOp) (side : WaitSide) :
    guard launch block op side.poll = true ↔
      side.pending op block.slice = true ∧ side.cache block < side.need block := by
  cases side with
  | recv => simp [guard, poll, pending, cache, need]
  | send =>
      simp only [guard, poll, pending, cache, need, Bool.and_eq_true, decide_eq_true_eq]
      exact and_congr_right fun _ => by omega

theorem guard_wait (launch : Launch α) (block : Block) (op : SliceOp) (side : WaitSide) :
    guard launch block op side.wait = true ↔
      side.pending op block.slice = true ∧ side.need block ≤ side.cache block := by
  cases side with
  | recv => simp [guard, wait, pending, cache, need]
  | send =>
      simp only [guard, wait, pending, cache, need, Bool.and_eq_true, Bool.not_eq_true',
        decide_eq_false_iff_not]
      exact and_congr_right fun _ => by omega

end WaitSide

/-- The states differ in cached counters only. -/
structure Refreshed (state state' : RingState α) : Prop where
  started : state'.started = state.started
  head : state'.head = state.head
  tail : state'.tail = state.tail
  block : ∀ id, ∃ sendCache recvCache, state'.block id =
    { state.block id with sendHeadCache := sendCache, recvTailCache := recvCache }

theorem Refreshed.refl (state : RingState α) : Refreshed state state :=
  ⟨rfl, rfl, rfl, fun _ => ⟨_, _, rfl⟩⟩

theorem refreshed_of_poll {label : RingLabel} (stepped : net.step state label = some state')
    (polls : isPoll label = true) : Refreshed state state' := by
  cases label with
  | launch rank => simp [isPoll] at polls
  | block id action =>
      obtain ⟨-, -, -, launch, -, ended | acted⟩ := step_block stepped
      · obtain ⟨-, rfl, -⟩ := ended
        simp [isPoll] at polls
      · obtain ⟨op, rest, -, -, rfl⟩ := acted
        cases action <;> simp only [isPoll, Bool.false_eq_true] at polls
        all_goals
          refine ⟨rfl, rfl, rfl, fun other => ?_⟩
          rw [perform_block]
          by_cases same : other = id
          · subst same
            rw [Function.update_self]
            exact ⟨_, _, rfl⟩
          · rw [Function.update_of_ne same]
            exact ⟨_, _, rfl⟩

namespace Refreshed

variable (refreshed : Refreshed state state')

include refreshed

theorem trans {last : RingState α} (later : Refreshed state' last) : Refreshed state last := by
  refine ⟨later.started.trans refreshed.started, later.head.trans refreshed.head,
    later.tail.trans refreshed.tail, fun id => ?_⟩
  obtain ⟨_, _, first⟩ := refreshed.block id
  obtain ⟨_, _, second⟩ := later.block id
  rw [second, first]
  exact ⟨_, _, rfl⟩

/-- What is not a cached counter is unchanged. -/
theorem field {β : Type*} (get : Block → β)
    (blind : ∀ block sendCache recvCache, get { block with
      sendHeadCache := sendCache, recvTailCache := recvCache } = get block) (id : BlockId) :
    get (state'.block id) = get (state.block id) := by
  obtain ⟨_, _, same⟩ := refreshed.block id
  rw [same, blind]

theorem live (id : BlockId) : (state'.block id).live = (state.block id).live :=
  refreshed.field Block.live (fun _ _ _ => rfl) id

theorem launch_eq (id : BlockId) : (state'.block id).launch = (state.block id).launch :=
  refreshed.field Block.launch (fun _ _ _ => rfl) id

theorem ops (id : BlockId) : (state'.block id).ops = (state.block id).ops :=
  refreshed.field Block.ops (fun _ _ _ => rfl) id

theorem slice (id : BlockId) : (state'.block id).slice = (state.block id).slice :=
  refreshed.field Block.slice (fun _ _ _ => rfl) id

theorem need (id : BlockId) (side : WaitSide) :
    side.need (state'.block id) = side.need (state.block id) :=
  refreshed.field (fun block => side.need block) (fun _ _ _ => by cases side <;> rfl) id

theorem counter (id : BlockId) (side : WaitSide) :
    side.counter net state' id = side.counter net state id := by
  cases side with
  | recv => exact congrFun refreshed.tail _
  | send => exact congrFun refreshed.head id

theorem idle {rank : ℕ} (idle : net.idle state rank) : net.idle state' rank :=
  fun channel channel_lt => (refreshed.live (rank, channel)).trans (idle channel channel_lt)

end Refreshed

theorem step_poll {side : WaitSide} (stepped : net.step state (.block id side.poll) = some state') :
    side.cache (state'.block id) = side.counter net state id := by
  obtain ⟨-, -, -, launch, -, ended | acted⟩ := step_block stepped
  · obtain ⟨-, action, -⟩ := ended
    cases side <;> cases action
  · obtain ⟨op, rest, -, -, rfl⟩ := acted
    rw [perform_block, Function.update_self]
    cases side <;> rfl

/-- A cached counter that satisfies its wait is not refreshed. -/
theorem need_le_cache_of_poll {label : RingLabel} {side : WaitSide}
    (stepped : net.step state label = some state') (polls : isPoll label = true)
    (covered : side.need (state.block id) ≤ side.cache (state.block id)) :
    side.cache (state'.block id) = side.cache (state.block id) := by
  cases label with
  | launch rank => simp [isPoll] at polls
  | block other action =>
      obtain ⟨-, -, -, launch, -, ended | acted⟩ := step_block stepped
      · obtain ⟨-, rfl, -⟩ := ended
        simp [isPoll] at polls
      · obtain ⟨op, rest, -, enabled, rfl⟩ := acted
        rw [perform_block]
        by_cases same : id = other
        · subst same
          rw [Function.update_self]
          have idle : action ≠ side.poll := by
            rintro rfl
            exact absurd covered (not_le.mpr (side.guard_poll launch _ op |>.mp enabled).2)
          cases action <;> simp only [isPoll, Bool.false_eq_true] at polls <;>
            cases side <;> first | rfl | exact absurd rfl idle
        · rw [Function.update_of_ne same]

/-! ## Fair runs -/

/-- A slice operation that awaits nothing has a next action, whatever is cached. -/
theorem exists_action {slice : SliceState} (id : BlockId) (launch : Launch α)
    (ready : ∀ side : WaitSide, side.pending op slice = false) :
    ∃ action, isPoll (.block id action) = false ∧
      ∀ block : Block, block.slice = slice → guard launch block op action = true := by
  have recvDone : (!op.prim.recvs || slice.waitedRecv) = true := by
    have := ready .recv
    cases recvs : op.prim.recvs <;> simp_all [WaitSide.pending]
  have sendDone : (!op.prim.sends || slice.waitedSend) = true := by
    have := ready .send
    cases sends : op.prim.sends <;> simp_all [WaitSide.pending]
  cases moved : slice.moved with
  | false => exact ⟨.move, rfl, by rintro block rfl; simp [guard, recvDone, sendDone, moved]⟩
  | true =>
      by_cases reducing : twoPass launch op = true ∧ slice.reduced = false
      · exact ⟨.reduce, rfl, by rintro block rfl; simp [guard, moved, reducing]⟩
      by_cases heading : op.prim.recvs = true ∧ slice.postedHead = false
      · exact ⟨.postHead, rfl, by rintro block rfl; simp [guard, moved, heading]⟩
      have reduceDone : (!twoPass launch op || slice.reduced) = true := by
        cases passes : twoPass launch op <;> simp_all
      have headDone : (!op.prim.recvs || slice.postedHead) = true := by
        cases recvs : op.prim.recvs <;> simp_all
      have released : (!(early launch op && op.prim.recvs) || slice.postedHead) = true := by
        cases recvs : op.prim.recvs <;> simp_all
      by_cases tailing : op.prim.sends = true ∧ slice.postedTail = false
      · refine ⟨.postTail, rfl, ?_⟩
        rintro block rfl
        simp only [guard, moved, tailing, reduceDone, released]
        rfl
      have tailDone : (!op.prim.sends || slice.postedTail) = true := by
        cases sends : op.prim.sends <;> simp_all
      refine ⟨.next, rfl, ?_⟩
      rintro block rfl
      simp only [guard, moved, reduceDone, headDone, tailDone]
      rfl

section Fair

variable {initial : RingState α} {run : StepSystem.Run net.step initial} {n : ℕ}

/-- From `n` on the run only refreshes cached counters. -/
def Idling (run : StepSystem.Run net.step initial) (n : ℕ) : Prop :=
  ∀ m ≥ n, ∀ label, run.label m = some label → isPoll label = true

theorem Idling.refreshed (idling : Idling run n) :
    ∀ m ≥ n, Refreshed (run.state n) (run.state m) := by
  refine StepSystem.Run.from_on (P := fun state => Refreshed (run.state n) state)
    (Refreshed.refl _) fun m later before => ?_
  have instant := run.instants m
  unfold StepSystem.Instant at instant
  split at instant
  · rwa [instant]
  · rename_i label taken
    exact before.trans (refreshed_of_poll instant (idling m later label taken))

/-- In a fair run that only refreshes, no other label stays enabled. -/
theorem Idling.exists_disabled (idling : Idling run n) (fair : ∀ label, run.WeaklyFair label)
    (label : RingLabel) (acts : isPoll label = false) {k : ℕ} (later : k ≥ n) :
    ∃ m ≥ k, ¬ StepSystem.Enabled net.step (run.state m) label := by
  refine StepSystem.Run.exists_disabled (fair label) fun m after taken => ?_
  rw [idling m (later.trans after) label taken] at acts
  cases acts

/-- What the current block state allows stays allowed when counters are refreshed. -/
theorem Refreshed.enabled (refreshed : Refreshed state state') (id_rank : id.1 < net.kRanks)
    (id_channel : id.2 < net.kChannels) (live : (state.block id).live = true)
    (found : net.launches[(state.block id).launch]? = some launch)
    (queue : (state.block id).ops = op :: rest) {action : Action}
    (enabled : guard launch (state'.block id) op action = true) :
    StepSystem.Enabled net.step state' (.block id action) :=
  ⟨_, step_of_guard id_rank id_channel ((refreshed.live id).trans live)
    (by rwa [refreshed.launch_eq]) ((refreshed.ops id).trans queue) enabled⟩

/-- A wait whose counter has arrived is refreshed in time. -/
theorem Idling.eventually_covered (idling : Idling run n) (fair : ∀ label, run.WeaklyFair label)
    (id_rank : id.1 < net.kRanks) (id_channel : id.2 < net.kChannels)
    (live : ((run.state n).block id).live = true)
    (found : net.launches[((run.state n).block id).launch]? = some launch)
    (queue : ((run.state n).block id).ops = op :: rest) {side : WaitSide}
    (pending : side.pending op ((run.state n).block id).slice = true)
    (arrived : side.need ((run.state n).block id) ≤ side.counter net (run.state n) id) :
    ∃ k ≥ n, ∀ m ≥ k, side.need ((run.state m).block id) ≤ side.cache ((run.state m).block id) := by
  have refreshed := idling.refreshed
  obtain ⟨k, later, covered⟩ : ∃ k ≥ n,
      side.need ((run.state k).block id) ≤ side.cache ((run.state k).block id) := by
    by_contra never
    push Not at never
    have polls (m : ℕ) (later : m ≥ n) :
        StepSystem.Enabled net.step (run.state m) (.block id side.poll) := by
      refine (refreshed m later).enabled id_rank id_channel live found queue ?_
      rw [side.guard_poll, (refreshed m later).slice]
      exact ⟨pending, never m later⟩
    obtain ⟨m, later, taken⟩ := fair (.block id side.poll) n polls
    have instant := run.instants m
    rw [taken] at instant
    have now := step_poll instant
    have short := never (m + 1) (later.trans (Nat.le_succ m))
    rw [now, (refreshed m later).counter, (refreshed _ (later.trans (Nat.le_succ m))).need] at short
    omega
  refine ⟨k, later, ?_⟩
  refine StepSystem.Run.from_on
    (P := fun state : RingState α => side.need (state.block id) ≤ side.cache (state.block id))
      covered
    fun m after before => ?_
  have instant := run.instants m
  unfold StepSystem.Instant at instant
  split at instant
  · rwa [instant]
  · rename_i label taken
    have polls := idling m (later.trans after) label taken
    rwa [(refreshed_of_poll instant polls).need, need_le_cache_of_poll instant polls before]

/-- In a fair run that only refreshes, no block can go on. -/
theorem Idling.not_blockEnabled (idling : Idling run n) (fair : ∀ label, run.WeaklyFair label)
    (id_rank : id.1 < net.kRanks) (id_channel : id.2 < net.kChannels)
    (found : net.launches[((run.state n).block id).launch]? = some launch) :
    ¬ BlockEnabled net (run.state n) id := by
  rintro ⟨live, arrived⟩
  have refreshed := idling.refreshed
  cases queue : ((run.state n).block id).ops with
  | nil =>
      obtain ⟨m, later, disabled⟩ :=
        idling.exists_disabled fair (.block id .ret) rfl le_rfl
      refine disabled ?_
      have live' := ((refreshed m later).live id).trans live
      have found' := (congrArg (net.launches[·]?) ((refreshed m later).launch_eq id)).trans found
      unfold StepSystem.Enabled step
      simp only [id_rank, id_channel, live', found', (refreshed m later).ops id, queue, and_self,
        if_true]
      exact ⟨_, rfl⟩
  | cons op rest =>
      obtain ⟨data, credit⟩ := arrived op rest queue
      by_cases waits : ∃ side : WaitSide, side.pending op ((run.state n).block id).slice = true
      · obtain ⟨side, pending⟩ := waits
        have reached : side.need ((run.state n).block id) ≤
            side.counter net (run.state n) id := by
          cases side with
          | recv =>
              simp only [WaitSide.pending, Bool.and_eq_true, Bool.not_eq_true'] at pending
              exact data pending.1 pending.2
          | send =>
              simp only [WaitSide.pending, Bool.and_eq_true, Bool.not_eq_true'] at pending
              have := credit pending.1 pending.2
              simp only [WaitSide.need, WaitSide.counter]
              omega
        obtain ⟨k, later, covered⟩ := idling.eventually_covered fair id_rank id_channel live found
          queue pending reached
        obtain ⟨m, after, disabled⟩ :=
          idling.exists_disabled fair (.block id side.wait) (by cases side <;> rfl) later
        have within := refreshed m (later.trans after)
        refine disabled (within.enabled id_rank id_channel live found queue ?_)
        rw [side.guard_wait, within.slice]
        exact ⟨pending, covered m after⟩
      · push Not at waits
        obtain ⟨action, acts, allowed⟩ :=
          exists_action id launch fun side => Bool.eq_false_iff.mpr (waits side)
        obtain ⟨m, later, disabled⟩ := idling.exists_disabled fair _ acts le_rfl
        have within := refreshed m later
        exact disabled (within.enabled id_rank id_channel live found queue
          (allowed _ (within.slice id)))

/-- In a fair run that only refreshes, no rank can go on. -/
theorem Idling.not_rankEnabled {rank : ℕ} (idling : Idling run n)
    (fair : ∀ label, run.WeaklyFair label) (rank_lt : rank < net.kRanks)
    (running : ∀ id, id.1 < net.kRanks → id.2 < net.kChannels →
      ((run.state n).block id).live = true →
        ∃ launch, net.launches[((run.state n).block id).launch]? = some launch) :
    ¬ RankEnabled net (run.state n) rank := by
  rintro (⟨idle, more⟩ | ⟨channel, channel_lt, enabled⟩)
  · obtain ⟨m, later, disabled⟩ :=
      idling.exists_disabled fair (.launch rank) rfl le_rfl
    have refreshed := idling.refreshed m later
    refine disabled ?_
    obtain ⟨launch, found⟩ : ∃ launch, net.launches[(run.state n).started rank]? = some launch :=
      ⟨_, List.getElem?_eq_getElem more⟩
    rw [← congrFun refreshed.started rank] at found
    unfold StepSystem.Enabled step
    simp only [found, rank_lt, refreshed.idle idle, and_self, if_true]
    exact ⟨_, rfl⟩
  · obtain ⟨launch, found⟩ := running (rank, channel) rank_lt channel_lt enabled.1
    exact idling.not_blockEnabled fair rank_lt channel_lt found enabled

end Fair

/-- A ring that cannot go on has finished. -/
theorem finished_of_stuck {base : BlockId → ℕ} {fifo : BlockId → ℕ → α}
    {output : ℕ × ℕ → ℕ → α} (two : 2 ≤ net.kRanks)
    (reach : StepSystem.Reachable net.step (net.initial base fifo output) state)
    (stuck : Stuck net state) : ∀ rank < net.kRanks, RankFinished net state rank := by
  obtain ⟨control, tracked⟩ := tracked_reachable two reach
  have idle (rank : ℕ) (rank_lt : rank < net.kRanks) : net.idle state rank := by
    intro channel channel_lt
    by_contra live
    obtain ⟨entry, next⟩ := stuck.exists_next tracked rank_lt channel_lt (by simpa using live)
    exact stuck.no_next two control tracked entry.time (rank, channel) entry next rfl
  intro rank rank_lt
  refine ⟨?_, idle rank rank_lt⟩
  by_contra left
  have bound := started_le_length reach rank
  exact stuck rank rank_lt (.inl ⟨idle rank rank_lt, by omega⟩)

/-- Nothing happens after the last rank has returned from its last launch. -/
theorem not_enabled_of_finished (finished : ∀ rank < net.kRanks, RankFinished net state rank)
    (label : RingLabel) : ¬ StepSystem.Enabled net.step state label := by
  rintro ⟨next, stepped⟩
  cases label with
  | launch rank =>
      obtain ⟨launch, found, rank_lt, -, -⟩ := step_launch stepped
      rw [(finished rank rank_lt).1, List.getElem?_eq_none le_rfl] at found
      cases found
  | block id action =>
      obtain ⟨id_rank, id_channel, live, -⟩ := step_block stepped
      rw [(finished id.1 id_rank).2 id.2 id_channel] at live
      cases live

/-- In every execution the labels that are no refresh are bounded in number, and every weakly fair
run reaches a point from which every rank has returned from all its launches. -/
theorem fair_run_finishes (net : KernelRing α) (two : 2 ≤ net.kRanks) (base : BlockId → ℕ)
    (fifo : BlockId → ℕ → α) (output : ℕ × ℕ → ℕ → α) :
    (∀ labels state, StepSystem.exec net.step (net.initial base fifo output) labels = some state →
      (labels.filter fun label => !isPoll label).length ≤
        net.movesLeft (net.initial base fifo output)) ∧
      ∀ run : StepSystem.Run net.step (net.initial base fifo output),
        (∀ label, run.WeaklyFair label) →
          ∃ n, ∀ m ≥ n, ∀ rank < net.kRanks, RankFinished net (run.state m) rank := by
  constructor
  · intro labels state execution
    have paid := StepSystem.exec_pays net.movesLeft isPoll (fun _ _ _ => movesLeft_step) execution
    omega
  · intro run fair
    obtain ⟨n, idling⟩ :=
      run.eventually_quiet net.movesLeft isPoll fun _ _ _ => movesLeft_step
    refine ⟨n, fun m later => ?_⟩
    have reach := run.reachable m
    obtain ⟨-, tracked⟩ := tracked_reachable two reach
    refine finished_of_stuck two reach fun rank rank_lt => ?_
    have onwards : Idling run m := fun k after => idling k (later.trans after)
    refine onwards.not_rankEnabled fair rank_lt fun id id_rank id_channel live => ?_
    obtain ⟨done, pending, position⟩ := tracked id id_rank id_channel
    exact position.running live

theorem fair_run_finishes_drift :
    ∃ run : StepSystem.Run driftRing.step driftStart, (∀ label, run.WeaklyFair label) ∧
      ∃ n, ∀ m ≥ n, ∀ rank < 3, RankFinished driftRing (run.state m) rank := by
  have reached : (StepSystem.exec driftRing.step driftStart driftLabels).any
      (fun state => decide (∀ rank < driftRing.kRanks, RankFinished driftRing state rank)) =
        true := by
    decide +kernel
  obtain ⟨state, execution, returned⟩ := (Option.any_eq_true _ _).mp reached
  have fair := StepSystem.Run.ofExec_fair execution
    (not_enabled_of_finished (of_decide_eq_true returned))
  exact ⟨StepSystem.Run.ofExec execution, fair,
    (fair_run_finishes driftRing (by decide) _ _ _).2 _ fair⟩

end KernelRing
end NanoNccl
