import NanoNccl.Kernel.BlockData

/-!
# Data of one launch

From drained edges, a ring that runs one launch delivers exactly what its plans say. The agreement
of memory and plans is carried over every block of the ring at once, along every run, and read off
where a rank has returned.
-/

namespace NanoNccl
namespace KernelRing

variable {α : Type*}

/-- The whole ring agrees with the plans. -/
structure Delivering (net : KernelRing α) (launch : Launch α) (base : BlockId → ℕ)
    (output : ℕ × ℕ → ℕ → α) (state : RingState α) : Prop where
  control : Control net state
  covered : CacheCovered net state
  blocks : ∀ id : BlockId, id.1 < net.kRanks → id.2 < net.kChannels →
    ∃ done pending, Tracked net base state id done pending ∧
      DataOk net launch base state id done pending
  consistent : state.store.Consistent output
  untouched : ∀ rank j, (∀ channel < net.kChannels, ∀ entry ∈ net.plan launch (rank, channel),
    ¬ entry.op.Covers j) → state.store.writes (rank, 0) j = []
  loads : ∀ rank, ∀ load ∈ state.store.loads (rank, 0), ∃ channel < net.kChannels,
    ∃ entry ∈ net.plan launch (rank, channel), entry.op.prim.loads = true ∧
      load = (entry.op.src, entry.op.work)

variable {net : KernelRing α} {launch : Launch α} {state : RingState α} {base : BlockId → ℕ}
  {id : BlockId} {output : ℕ × ℕ → ℕ → α} {done pending later : List (Entry α)} {entry : Entry α}

/-! ## Every step keeps the ring in agreement -/

/-- The block that acts. -/
theorem Delivering.perform_self {state' : RingState α} {action : Action} {rest : List SliceOp}
    (ok : PlanOk net launch) (single : net.launches = [launch]) (two : 2 ≤ net.kRanks)
    (inv : Delivering net launch base output state) (id_rank : id.1 < net.kRanks)
    (id_channel : id.2 < net.kChannels) (live : (state.block id).live = true)
    (found : net.launches[(state.block id).launch]? = some launch)
    (tracked : Tracked net base state id done (entry :: later))
    (data : DataOk net launch base state id done (entry :: later))
    (laterOps : later.map Entry.op = rest)
    (enabled : guard launch (state.block id) entry.op action = true)
    (stepped : net.step state (.block id action) = some state')
    (effect : state' = net.perform launch state id (state.block id) entry.op rest action) :
    ∃ done' pending', Tracked net base state' id done' pending' ∧
      DataOk net launch base state' id done' pending' := by
  subst effect
  have blockOk := inv.control id id_rank id_channel
  have queue : (state.block id).ops = entry.op :: rest := by
    rw [← tracked.ops, List.map_cons, laterOps]
  have flags := blockOk.slice launch entry.op rest found queue
  have index := launch_eq_zero single found
  have planned : entry ∈ net.plan launch id := by
    rw [tracked.plan_eq single]
    simp
  have sound := ok.sound id id_rank entry planned
  have bytes := bytes_mem_plan planned
  have unpostedTail (quiet : (state.block id).slice.postedTail = false) :
      state.tail id = (state.block id).sendStep := by
    rw [blockOk.tail, quiet, ahead_false, Nat.add_zero]
  have free (passing : action = .move ∨ action = .reduce) (sends : entry.op.prim.sends = true) :
      SlotFree state id :=
    slotFree_of_covered inv.control inv.covered stepped ⟨passing, entry.op, rest, queue, sends⟩
  by_cases ends : action = .next
  · subst ends
    exact ⟨done ++ [entry], later, tracked.next laterOps flags enabled, data.next enabled⟩
  refine ⟨done, entry :: later, tracked.inside found enabled ends, ?_⟩
  have quiet : ∀ entry ∈ net.plan launch id, ∀ j, entry.op.Covers j →
      state.store.writes (id.1, 0) j = state.store.writes (id.1, 0) j := fun _ _ _ _ => rfl
  cases action with
  | next => exact absurd rfl ends
  | ret => simp [guard] at enabled
  | pollTail | pollHead | waitRecv | waitSend =>
      refine data.frame tracked single rfl ?_ ?_ ?_ le_rfl rfl rfl quiet <;>
        simp [perform, act]
  | postHead =>
      refine data.frame tracked single rfl ?_ ?_ ?_ (head_le_perform blockOk enabled rest id) rfl
        rfl quiet <;> simp [perform, act]
  | postTail =>
      have unposted : (state.block id).slice.postedTail = false := by
        simp only [guard, Bool.and_eq_true, Bool.not_eq_true'] at enabled
        exact enabled.1.1.2
      exact data.postTail single tracked (unpostedTail unposted) bytes enabled
  | move =>
      have waits := enabled
      simp only [guard, Bool.and_eq_true, Bool.or_eq_true, Bool.not_eq_true'] at waits
      obtain ⟨⟨waitedRecv, -⟩, unmoved⟩ := waits
      obtain ⟨unreduced, unreleased, unposted⟩ := flags.unmoved unmoved
      refine data.pass ok single id_rank id_channel tracked index enabled (.inl rfl)
        (free (.inl rfl)) (unpostedTail unposted) ?_ ?_
      · intro i inside
        refine firstValue_eq_slotContent _ unreduced sound (fun recvs i inside => ?_) inside
        obtain ⟨donePred, pendingPred, -, dataPred⟩ :=
          inv.blocks (net.pred id) (pred_lt id_rank) id_channel
        exact received_eq two single id_rank blockOk live tracked dataPred bytes recvs
          (by simpa [recvs] using waitedRecv) unreleased inside
      · intro stores i
        cases passes : twoPass launch entry.op <;> cases sends : entry.op.prim.sends <;>
          simp [history, finalHistory, slotContent, firstStores, act, unmoved, unreduced, passes,
            sends, stores]
  | reduce =>
      obtain ⟨passes, moved, unreduced⟩ := twoPass_of_reduce enabled
      refine data.pass ok single id_rank id_channel tracked index enabled (.inr rfl)
        (free (.inr rfl)) (unpostedTail (flags.unreduced passes unreduced)) ?_ ?_
      · intro i inside
        have finished := secondValue_eq_sent data inv.consistent index passes moved unreduced sound
          inside
        simpa [passValue, slotContent, act] using finished
      · intro stores i
        cases sends : entry.op.prim.sends <;>
          simp [history, finalHistory, slotContent, act, moved, unreduced, passes, sends, stores]

/-- The blocks that do not act. -/
theorem Delivering.perform_other {action : Action} {rest : List SliceOp} {other : BlockId}
    {op : SliceOp} (ok : PlanOk net launch) (single : net.launches = [launch])
    (inv : Delivering net launch base output state) (id_rank : id.1 < net.kRanks)
    (id_channel : id.2 < net.kChannels) (other_rank : other.1 < net.kRanks)
    (other_channel : other.2 < net.kChannels) (distinct : other ≠ id)
    (planned : ∃ entry ∈ net.plan launch id, entry.op = op)
    (enabled : guard launch (state.block id) op action = true) :
    ∃ done pending,
      Tracked net base (net.perform launch state id (state.block id) op rest action) other done
        pending ∧
      DataOk net launch base (net.perform launch state id (state.block id) op rest action) other
        done pending := by
  obtain ⟨done, pending, tracked, data⟩ := inv.blocks other other_rank other_channel
  refine ⟨done, pending, tracked.congr ?_ ?_ ?_ ?_, data.frame tracked single ?_ ?_ ?_ ?_ ?_ ?_ ?_
    ?_⟩
  case refine_1 | refine_5 => rw [perform_started]
  case refine_2 => rw [perform_block, Function.update_of_ne distinct]
  case refine_3 => cases action <;> simp [perform, distinct]
  case refine_4 => cases action <;> simp [perform, distinct]
  case refine_6 | refine_7 | refine_8 => rw [perform_block, Function.update_of_ne distinct]
  case refine_9 => exact head_le_perform (inv.control id id_rank id_channel) enabled rest other
  case refine_10 => exact perform_tail_of_ne (state.block id) distinct
  case refine_11 => exact perform_fifo_of_ne enabled distinct
  case refine_12 =>
    intro entry member j covers
    refine perform_writes_of_not_covers enabled fun same both => ?_
    obtain ⟨current, currentIn, rfl⟩ := planned
    have channels : other.2 ≠ id.2 := fun equal => distinct (Prod.ext same equal)
    obtain ⟨otherRank, otherChannel⟩ := other
    obtain rfl : otherRank = id.1 := same
    exact ok.channels id.1 otherChannel id.2 id_rank other_channel id_channel channels entry member
      current currentIn j ⟨covers, both⟩

/-- On drained edges the seeded caches are covered. -/
theorem Delivering.seedCovered {label : RingLabel} {state' : RingState α}
    (single : net.launches = [launch]) (inv : Delivering net launch base output state)
    (stepped : net.step state label = some state') : net.SeedCovered state label := by
  cases label with
  | block id action => trivial
  | launch rank =>
      obtain ⟨launch', found, rank_lt, idle, -⟩ := step_launch stepped
      intro _ _ channel channel_lt _
      obtain ⟨done, pending, tracked, -⟩ := inv.blocks (rank, channel) rank_lt channel_lt
      obtain ⟨doneSucc, pendingSucc, trackedSucc, -⟩ :=
        inv.blocks (net.succ (rank, channel)) (succ_lt rank_lt) channel_lt
      obtain ⟨empty, sendBase, -⟩ :=
        (inv.control (rank, channel) rank_lt channel_lt).returned (idle channel channel_lt)
      obtain rfl := tracked.pending_nil empty
      have first : state.started rank = 0 := by
        obtain ⟨inside, -⟩ := List.getElem?_eq_some_iff.mp found
        simp only [single, List.length_singleton] at inside
        omega
      have nothing : done = [] := by
        have whole := congrArg List.length tracked.whole
        rw [first, future_zero, List.length_append, List.nil_append] at whole
        exact List.eq_nil_of_length_eq_zero (by omega)
      have head := (inv.control (net.succ (rank, channel)) (succ_lt rank_lt) channel_lt).head
      rw [trackedSucc.recvStep, pred_succ rank_lt] at head
      rw [← sendBase, tracked.sendStep, nothing, head]
      simp only [outgoing_nil, List.length_nil]
      omega

theorem Delivering.perform_consistent {action : Action} {rest : List SliceOp} {op : SliceOp}
    (inv : Delivering net launch base output state) :
    (net.perform launch state id (state.block id) op rest action).store.Consistent output := by
  cases action
  case move => exact moveSlice_consistent _ _ _ _ _ _ inv.consistent
  case reduce => exact reduceSlice_consistent _ _ _ _ inv.consistent
  all_goals exact inv.consistent

theorem Delivering.perform_loads {action : Action} {rest : List SliceOp}
    (inv : Delivering net launch base output state) (id_channel : id.2 < net.kChannels)
    (planned : entry ∈ net.plan launch id)
    (enabled : guard launch (state.block id) entry.op action = true) (rank : ℕ)
    (load : ℕ × ℕ)
    (member : load ∈
      (net.perform launch state id (state.block id) entry.op rest action).store.loads (rank, 0)) :
    ∃ channel < net.kChannels, ∃ entry ∈ net.plan launch (rank, channel),
      entry.op.prim.loads = true ∧ load = (entry.op.src, entry.op.work) := by
  -- Either the load is an old one, or this pass reads the input of its own entry.
  have recent : load ∈ state.store.loads (rank, 0) ∨
      rank = id.1 ∧ entry.op.prim.loads = true ∧ load = (entry.op.src, entry.op.work) := by
    have appended {loads : ℕ × ℕ → List (ℕ × ℕ)} (reads : entry.op.prim.loads = true)
        (inside : load ∈ Function.update loads (id.1, (state.block id).launch)
          (loads (id.1, (state.block id).launch) ++ [(entry.op.src, entry.op.work)]) (rank, 0)) :
        load ∈ loads (rank, 0) ∨
          rank = id.1 ∧ entry.op.prim.loads = true ∧ load = (entry.op.src, entry.op.work) := by
      by_cases same : (rank, 0) = (id.1, (state.block id).launch)
      · rw [← same, Function.update_self, List.mem_append, List.mem_singleton] at inside
        exact inside.imp_right fun equal => ⟨(Prod.mk.inj same).1, reads, equal⟩
      · rw [Function.update_of_ne same] at inside
        exact .inl inside
    cases action
    case move =>
      simp only [perform, moveSlice_loads] at member
      split at member
      · rename_i reads
        simp only [Bool.and_eq_true] at reads
        exact appended reads.1 member
      · exact .inl member
    case reduce =>
      have passes := (twoPass_of_reduce enabled).1
      simp only [perform, reduceSlice_loads _ _ _ _ passes] at member
      refine appended ?_ member
      simp only [twoPass, Bool.and_eq_true] at passes
      have reduces := passes.1
      cases prim : entry.op.prim <;> simp [prim, Prim.reduces, Prim.loads] at reduces ⊢
    all_goals exact .inl member
  rcases recent with old | ⟨rfl, reads, equal⟩
  · exact inv.loads rank load old
  · exact ⟨id.2, id_channel, entry, planned, reads, equal⟩

theorem delivering_step {label : RingLabel} {state' : RingState α} (ok : PlanOk net launch)
    (single : net.launches = [launch]) (two : 2 ≤ net.kRanks)
    (inv : Delivering net launch base output state)
    (stepped : net.step state label = some state') :
    Delivering net launch base output state' := by
  have control' := control_step inv.control stepped
  have covered' := cacheCovered_step inv.control inv.covered (inv.seedCovered single stepped)
    stepped
  cases label with
  | launch rank =>
      obtain ⟨launch', found, rank_lt, idle, rfl⟩ := step_launch stepped
      refine ⟨control', covered', ?_, inv.consistent, inv.untouched, inv.loads⟩
      intro other other_rank other_channel
      obtain ⟨done, pending, tracked, data⟩ := inv.blocks other other_rank other_channel
      by_cases entering : other.1 = rank
      · subst entering
        have otherOk := inv.control other other_rank other_channel
        have quiet := idle other.2 other_channel
        obtain ⟨empty, -, -⟩ := otherOk.returned quiet
        obtain rfl := tracked.pending_nil empty
        refine ⟨done, _, tracked.enter otherOk found other_rank two quiet ?_ ?_ rfl rfl,
          data.enter ?_ ?_ rfl rfl rfl⟩
        · simp
        · simp [other_channel]
        · rw [future_eq found]
          simp
        · simp only [true_and, other_channel, if_true, KernelRing.enter]
          split
          · exact otherOk.empty empty
          · rfl
      · refine ⟨done, pending, tracked.congr ?_ ?_ rfl rfl, data.frame tracked single ?_ ?_ ?_ ?_
          le_rfl rfl rfl fun _ _ _ _ => rfl⟩ <;> simp [entering]
  | block id action =>
      obtain ⟨id_rank, id_channel, live, launch', found, finished | continued⟩ :=
        step_block stepped
      · obtain ⟨finished, -, rfl⟩ := finished
        refine ⟨control', covered', ?_, inv.consistent, inv.untouched, inv.loads⟩
        intro other other_rank other_channel
        obtain ⟨done, pending, tracked, data⟩ := inv.blocks other other_rank other_channel
        by_cases same : other = id
        · subst same
          refine ⟨done, pending, tracked.retire, data.frame tracked single rfl ?_ ?_ ?_ le_rfl rfl
            rfl fun _ _ _ _ => rfl⟩ <;> simp [retire]
        · refine ⟨done, pending, tracked.congr rfl ?_ rfl rfl, data.frame tracked single rfl ?_ ?_
            ?_ le_rfl rfl rfl fun _ _ _ _ => rfl⟩ <;> simp [same]
      · obtain ⟨op, rest, queue, enabled, rfl⟩ := continued
        obtain rfl : launch' = launch := by
          have member := List.mem_of_getElem? found
          simpa [single] using member
        obtain ⟨done, pending, tracked, data⟩ := inv.blocks id id_rank id_channel
        obtain ⟨entry, later, rfl, rfl, laterOps⟩ := tracked.pending_cons queue
        have planned : entry ∈ net.plan launch' id := by
          rw [tracked.plan_eq single]
          simp
        refine ⟨control', covered', ?_, inv.perform_consistent, ?_, ?_⟩
        · intro other other_rank other_channel
          by_cases same : other = id
          · subst same
            exact inv.perform_self ok single two id_rank id_channel live found tracked data
              laterOps enabled stepped rfl
          · exact inv.perform_other ok single id_rank id_channel other_rank other_channel same
              ⟨entry, planned, rfl⟩ enabled
        · intro rank j uncovered
          rw [perform_writes_of_not_covers enabled]
          · exact inv.untouched rank j uncovered
          · rintro rfl
            exact uncovered id.2 id_channel entry planned
        · exact inv.perform_loads id_channel planned enabled

theorem delivering_reachable {fifo : BlockId → ℕ → α} (ok : PlanOk net launch)
    (single : net.launches = [launch]) (two : 2 ≤ net.kRanks)
    (reach : StepSystem.Reachable net.step (net.initial base fifo output) state) :
    Delivering net launch base output state := by
  refine StepSystem.Reachable.invariant (Delivering net launch base output)
    (fun _ _ _ inv stepped => delivering_step ok single two inv stepped) ?_ reach
  refine ⟨control_initial base fifo output, ?_, ?_, ?_, ?_, ?_⟩
  · intro id _ _ live
    simp [initial] at live
  · intro id id_rank id_channel
    obtain ⟨done, pending, tracked⟩ : ∃ done pending,
        Tracked net base (net.initial base fifo output) id done pending :=
      allTracked_initial base fifo output id id_rank id_channel
    obtain rfl := tracked.pending_nil rfl
    have nothing : done = [] := by
      have whole := congrArg List.length tracked.whole
      rw [show (net.initial base fifo output).started id.1 = 0 from rfl, future_zero,
        List.length_append, List.nil_append] at whole
      exact List.eq_nil_of_length_eq_zero (by omega)
    subst nothing
    refine ⟨[], [], tracked, ?_⟩
    constructor <;> simp [initial]
  · intro buffer j
    rfl
  · intro rank j _
    rfl
  · intro rank load member
    simp [initial] at member

/-! ## What a returned rank holds -/

/-- A rank that returned holds, in every element an entry covers, the history of that entry. -/
theorem Delivering.writes_eq (single : net.launches = [launch])
    (inv : Delivering net launch base output state) {rank channel : ℕ}
    (rank_lt : rank < net.kRanks) (channel_lt : channel < net.kChannels)
    (started : state.started rank = 1) (idle : net.idle state rank)
    (planned : entry ∈ net.plan launch (rank, channel)) {j : ℕ} (covers : entry.op.Covers j) :
    state.store.writes (rank, 0) j = finalHistory launch entry (j - entry.op.dst) := by
  obtain ⟨done, pending, tracked, data⟩ := inv.blocks (rank, channel) rank_lt channel_lt
  obtain ⟨empty, -, -⟩ :=
    (inv.control (rank, channel) rank_lt channel_lt).returned (idle channel channel_lt)
  obtain rfl := tracked.pending_nil empty
  have all : net.plan launch (rank, channel) = done := by
    rw [tracked.plan_eq single, started]
    simp [future, single, planFrom]
  rw [all] at planned
  exact data.done entry planned j covers

theorem getLastD_finalHistory (entry : Entry α) (i : ℕ) (fallback : α) :
    (finalHistory launch entry i).getLastD fallback = entry.sent i := by
  unfold finalHistory
  split <;> rfl

theorem Delivering.output_eq (single : net.launches = [launch])
    (inv : Delivering net launch base output state) {rank channel : ℕ}
    (rank_lt : rank < net.kRanks) (channel_lt : channel < net.kChannels)
    (started : state.started rank = 1) (idle : net.idle state rank)
    (planned : entry ∈ net.plan launch (rank, channel)) {j : ℕ} (covers : entry.op.Covers j) :
    state.store.output (rank, 0) j = entry.sent (j - entry.op.dst) := by
  rw [inv.consistent, inv.writes_eq single rank_lt channel_lt started idle planned covers,
    getLastD_finalHistory]

end KernelRing
end NanoNccl
