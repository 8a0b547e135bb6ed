import NanoNccl.Kernel.PipeTracking

/-!
# The outputs of the ring over pipes

The output buffers of every launch against the tasks of the blocks: a finished task has written its
elements once, the current one as far as its pass is made, the later ones nothing. The whole ring
keeps this along every run, whatever pipes serve its edges.
-/

namespace NanoNccl
namespace PipeRing

variable {α : Type*}

/-- The output buffers agree with the position of a block. -/
structure Written {ring : PipeRing α} (state : ring.State) (id : BlockId)
    (done pending : List (Task α)) : Prop where
  done : ∀ task ∈ done, ∀ j, task.entry.op.Covers j →
    state.writes (id.1, task.index) j = [task.entry.sent (j - task.entry.op.dst)]
  current : ∀ task later, pending = task :: later → ∀ j, task.entry.op.Covers j →
    state.writes (id.1, task.index) j =
      if (state.block id).slice.moved then [task.entry.sent (j - task.entry.op.dst)] else []
  later : ∀ task ∈ pending.tail ++ ring.net.laterTasks id (state.started id.1), ∀ j,
    task.entry.op.Covers j → state.writes (id.1, task.index) j = []

/-- The whole ring agrees with its tasks. -/
structure Delivering {ring : PipeRing α} (state : ring.State) : Prop where
  good : state.Good
  ok : ∀ id, (state.line id).Ok
  blocks : ∀ id : BlockId, id.1 < ring.net.kRanks → id.2 < ring.net.kChannels →
    ∃ done pending, Placed state id done pending ∧ Written state id done pending
  untouched : ∀ rank index j, (∀ channel < ring.net.kChannels,
    ∀ task ∈ ring.net.tasks (rank, channel), task.index = index → ¬ task.entry.op.Covers j) →
      state.writes (rank, index) j = []

variable {ring : PipeRing α} {state after state' : ring.State} {id other : BlockId}
  {done pending later : List (Task α)} {task : Task α}

/-! ## Tasks that write different elements -/

/-- Two tasks write no common element of a common buffer. -/
def Task.Apart (left right : Task α) : Prop :=
  left.index = right.index → left.entry.op.Apart right.entry.op

theorem apart_tasksFrom {net : KernelRing α} (two : 2 ≤ net.kRanks) (id_rank : id.1 < net.kRanks)
    (id_channel : id.2 < net.kChannels) (start : ℕ) (launches : List (Launch α)) :
    (net.tasksFrom id start launches).Pairwise Task.Apart := by
  induction launches generalizing start with
  | nil => exact List.Pairwise.nil
  | cons launch launches ih =>
      rw [KernelRing.tasksFrom, List.pairwise_append]
      refine ⟨?_, ih (start + 1), ?_⟩
      · have inside := (KernelRing.planOk two : KernelRing.PlanOk net launch).apart id id_rank
          id_channel
        unfold KernelRing.tasksOf
        rw [List.pairwise_map]
        refine inside.imp ?_
        intro left right apart _
        exact apart
      · intro left leftIn right rightIn same
        obtain ⟨entry, -, rfl⟩ := List.mem_map.mp leftIn
        have := (KernelRing.mem_tasksFrom rightIn).1
        simp only at same
        omega

theorem apart_tasks (two : 2 ≤ ring.net.kRanks) (id_rank : id.1 < ring.net.kRanks)
    (id_channel : id.2 < ring.net.kChannels) : (ring.net.tasks id).Pairwise Task.Apart :=
  apart_tasksFrom two id_rank id_channel 0 _

/-- Tasks before and after the current one write other elements. -/
theorem Placed.apart (placed : Placed state id done (task :: later)) (two : 2 ≤ ring.net.kRanks)
    (id_rank : id.1 < ring.net.kRanks) (id_channel : id.2 < ring.net.kChannels) {other : Task α}
    (member : other ∈ done ∨ other ∈ later ++ ring.net.laterTasks id (state.started id.1))
    (same : other.index = task.index) {j : ℕ} (covers : other.entry.op.Covers j) :
    ¬ task.entry.op.Covers j := by
  have pairwise := apart_tasks two id_rank id_channel
  rw [placed.whole, List.cons_append] at pairwise
  obtain ⟨-, rest, across⟩ := List.pairwise_append.mp pairwise
  intro both
  rcases member with member | member
  · exact across other member task List.mem_cons_self same j ⟨covers, both⟩
  · exact (List.pairwise_cons.mp rest).1 other member same.symm j ⟨both, covers⟩

/-- Tasks of two blocks of a rank write different elements. -/
theorem not_covers_of_channels (two : 2 ≤ ring.net.kRanks) (id_rank : id.1 < ring.net.kRanks)
    (id_channel : id.2 < ring.net.kChannels) (other_channel : other.2 < ring.net.kChannels)
    (rank : other.1 = id.1) (distinct : other ≠ id) {left right : Task α}
    (leftIn : left ∈ ring.net.tasks other) (rightIn : right ∈ ring.net.tasks id)
    (same : left.index = right.index) {j : ℕ} (covers : left.entry.op.Covers j) :
    ¬ right.entry.op.Covers j := by
  obtain ⟨otherRank, otherChannel⟩ := other
  obtain rfl : otherRank = id.1 := rank
  obtain ⟨leftFound, leftPlanned⟩ := KernelRing.mem_tasks leftIn
  obtain ⟨rightFound, rightPlanned⟩ := KernelRing.mem_tasks rightIn
  rw [same, rightFound] at leftFound
  rw [← Option.some.inj leftFound] at leftPlanned
  have channels : otherChannel ≠ id.2 := fun equal => distinct (Prod.ext rfl equal)
  exact fun both => (KernelRing.planOk two).channels id.1 otherChannel id.2 id_rank other_channel
    id_channel channels left.entry leftPlanned right.entry rightPlanned j ⟨covers, both⟩

/-! ## What an action writes -/

/-- An action writes only the elements its task covers. -/
theorem Effect.writes_of_not_covers {launch : Launch α} {op : SliceOp} {action : PipeAction}
    (effect : Effect state id launch op action after) {buffer : ℕ × ℕ} {j : ℕ}
    (apart : buffer = (id.1, (state.block id).launch) → ¬ op.Covers j) :
    after.writes buffer j = state.writes buffer j := by
  rw [effect.writes]
  split
  · rename_i storing
    by_cases same : buffer = (id.1, (state.block id).launch)
    · subst same
      rw [Function.update_self, logged, if_neg]
      exact fun inside => apart rfl ⟨storing.2, inside⟩
    · rw [Function.update_of_ne same]
  · rfl

/-- A step that leaves the slice and the covered elements of a block alone keeps its outputs in
agreement. -/
theorem Written.frame (written : Written state id done pending)
    (placed : Placed state id done pending) (started : state'.started id.1 = state.started id.1)
    (moved : (state'.block id).slice.moved = (state.block id).slice.moved)
    (writes : ∀ task ∈ ring.net.tasks id, ∀ j, task.entry.op.Covers j →
      state'.writes (id.1, task.index) j = state.writes (id.1, task.index) j) :
    Written state' id done pending := by
  have inWhole {task : Task α} (member : task ∈ done ∨
      task ∈ pending ++ ring.net.laterTasks id (state.started id.1)) :
      task ∈ ring.net.tasks id := by
    rw [placed.whole]
    exact List.mem_append.mpr member
  constructor
  case done =>
    intro task member j covers
    rw [writes task (inWhole (.inl member)) j covers]
    exact written.done task member j covers
  case current =>
    intro task later position j covers
    rw [writes task (inWhole (.inr (by simp [position]))) j covers, moved]
    exact written.current task later position j covers
  case later =>
    intro task member j covers
    rw [started] at member
    have inside : task ∈ pending ++ ring.net.laterTasks id (state.started id.1) := by
      rcases List.mem_append.mp member with member | member
      · exact List.mem_append_left _ (List.mem_of_mem_tail member)
      · exact List.mem_append_right _ member
    rw [writes task (inWhole (.inr inside)) j covers]
    exact written.later task member j covers

/-- Starting a launch writes nothing. -/
theorem Written.enter {started : List (Task α)} (written : Written state id done [])
    (ahead : ring.net.laterTasks id (state.started id.1) =
      started ++ ring.net.laterTasks id (state'.started id.1))
    (fresh : (state'.block id).slice = {}) (writes : state'.writes = state.writes) :
    Written state' id done started := by
  have unwritten : ∀ task ∈ started ++ ring.net.laterTasks id (state'.started id.1), ∀ j,
      task.entry.op.Covers j → state'.writes (id.1, task.index) j = [] := by
    intro task member j covers
    rw [writes]
    refine written.later task ?_ j covers
    rw [ahead]
    simpa using member
  constructor
  case done =>
    rw [writes]
    exact written.done
  case current =>
    intro task later position j covers
    rw [unwritten task (by simp [position]) j covers, fresh]
    rfl
  case later =>
    intro task member j covers
    refine unwritten task ?_ j covers
    rcases List.mem_append.mp member with member | member
    · exact List.mem_append_left _ (List.mem_of_mem_tail member)
    · exact List.mem_append_right _ member

/-- Finishing a slice operation completes its outputs. -/
theorem Written.next (written : Written state id done (task :: later))
    (moved : (state.block id).slice.moved = true)
    (started : state'.started id.1 = state.started id.1)
    (fresh : (state'.block id).slice = {}) (writes : state'.writes = state.writes) :
    Written state' id (done ++ [task]) later := by
  constructor
  case done =>
    intro other member j covers
    rw [writes]
    rcases List.mem_append.mp member with member | member
    · exact written.done other member j covers
    · obtain rfl := List.mem_singleton.mp member
      have now := written.current other later rfl j covers
      rwa [moved, if_pos rfl] at now
  case current =>
    intro other rest position j covers
    rw [writes, written.later other (by simp [position]) j covers, fresh]
    rfl
  case later =>
    intro other member j covers
    rw [started] at member
    rw [writes]
    refine written.later other ?_ j covers
    rcases List.mem_append.mp member with member | member
    · exact List.mem_append_left _ (List.mem_of_mem_tail member)
    · exact List.mem_append_right _ member

/-- The pass writes every element of its task once. -/
theorem Written.move {rest : List SliceOp} (written : Written state id done (task :: later))
    (placed : Placed state id done (task :: later)) (two : 2 ≤ ring.net.kRanks)
    (id_rank : id.1 < ring.net.kRanks) (id_channel : id.2 < ring.net.kChannels)
    (unmoved : (state.block id).slice.moved = false)
    (effect : Effect state id task.launch task.entry.op .move after)
    (value : ∀ i < task.entry.op.work,
      passValue state id task.launch task.entry.op i = task.entry.sent i) :
    Written (after.setBlock id (advance (state.block id) rest .move)) id done
      (task :: later) := by
  have index := (placed.current task List.mem_cons_self).1
  have block : ((after.setBlock id (advance (state.block id) rest .move)).block id).slice.moved =
      true := by
    simp [State.setBlock, advance]
  have elsewhere {other : Task α}
      (member : other ∈ done ∨ other ∈ later ++ ring.net.laterTasks id (state.started id.1))
      {j : ℕ} (covers : other.entry.op.Covers j) :
      after.writes (id.1, other.index) j = state.writes (id.1, other.index) j := by
    refine effect.writes_of_not_covers fun same => ?_
    exact placed.apart two id_rank id_channel member ((Prod.mk.inj same).2.trans index.symm) covers
  constructor
  case done =>
    intro other member j covers
    exact (elsewhere (.inl member) covers).trans (written.done other member j covers)
  case current =>
    intro other rest' position j covers
    obtain ⟨rfl, rfl⟩ : task = other ∧ later = rest' := by simpa using position
    have before := written.current task later rfl j covers
    rw [unmoved, if_neg Bool.false_ne_true, index] at before
    have inside : j - task.entry.op.dst < task.entry.op.work := by
      have := covers.2
      omega
    rw [block, if_pos rfl]
    show after.writes (id.1, task.index) j = _
    rw [effect.writes, if_pos ⟨rfl, covers.1⟩, index, Function.update_self, logged,
      if_pos covers.2, before, value _ inside, List.nil_append]
  case later =>
    intro other member j covers
    have started : (after.setBlock id (advance (state.block id) rest .move)).started id.1 =
        state.started id.1 := congrFun effect.started id.1
    rw [started] at member
    exact (elsewhere (.inr member) covers).trans (written.later other member j covers)

/-! ## Every run -/

theorem delivering_initial : Delivering ring.initial := by
  constructor
  case good => exact good_initial
  case ok =>
    intro id
    rw [line_initial]
    exact Line.ok_empty
  case blocks =>
    intro id _ _
    refine ⟨[], [], Placed.initial id, ?_⟩
    constructor <;> simp [PipeRing.initial]
  case untouched => exact fun _ _ _ _ => rfl

theorem Delivering.own {move : (ring.edge id).Own} (inv : Delivering state)
    (stepped : ring.step state (.own id move) = some state') : Delivering state' := by
  obtain ⟨good, started, block, line, writes⟩ := step_own inv.good stepped
  constructor
  case good => exact good
  case ok =>
    rw [line]
    exact inv.ok
  case blocks =>
    intro other other_rank other_channel
    obtain ⟨done, pending, placed, written⟩ := inv.blocks other other_rank other_channel
    refine ⟨done, pending, placed.congr ?_ ?_ ?_ ?_, written.frame placed ?_ ?_ ?_⟩
    all_goals simp only [started, block, line, writes, implies_true]
  case untouched =>
    rw [writes]
    exact inv.untouched

theorem enter_fresh {launch : Launch α} {index : ℕ} {block : PipeBlock}
    (fresh : block.slice = {}) : (ring.enter launch index id block).slice = {} := by
  unfold enter
  split
  · exact fresh
  · rfl

theorem Delivering.launch {rank : ℕ} (inv : Delivering state) (two : 2 ≤ ring.net.kRanks)
    (stepped : ring.step state (.launch rank) = some state') : Delivering state' := by
  obtain ⟨launch, found, -, idle, rfl⟩ := step_launch stepped
  refine ⟨inv.good, inv.ok, ?_, inv.untouched⟩
  intro other other_rank other_channel
  obtain ⟨done, pending, placed, written⟩ := inv.blocks other other_rank other_channel
  by_cases entering : other.1 = rank
  · subst entering
    have empty := placed.returned (idle other.2 other_channel)
    obtain rfl := placed.pending_nil empty
    refine ⟨done, _, placed.enter found other_rank two (idle other.2 other_channel) ?_ ?_ rfl,
      written.enter ?_ ?_ rfl⟩
    · simp
    · simp [other_channel]
    · rw [KernelRing.laterTasks_eq found]
      simp
    · simp only [true_and, other_channel, if_true]
      exact enter_fresh (placed.fresh empty)
  · refine ⟨done, pending, placed.congr ?_ ?_ rfl rfl,
      written.frame placed ?_ ?_ fun _ _ _ _ => rfl⟩ <;> simp [entering]

theorem Delivering.retire (inv : Delivering state) (empty : (state.block id).ops = []) :
    Delivering (state.setBlock id (state.block id).retire) := by
  refine ⟨inv.good, inv.ok, ?_, inv.untouched⟩
  intro other other_rank other_channel
  obtain ⟨done, pending, placed, written⟩ := inv.blocks other other_rank other_channel
  by_cases same : other = id
  · subst same
    refine ⟨done, pending, placed.retire empty, written.frame placed rfl ?_ fun _ _ _ _ => rfl⟩
    simp [State.setBlock, PipeBlock.retire]
  · refine ⟨done, pending, placed.congr rfl ?_ rfl rfl,
      written.frame placed rfl ?_ fun _ _ _ _ => rfl⟩ <;> simp [State.setBlock, same]

/-- The block that acts stays at a position of its tasks. -/
theorem Delivering.act_self {launch : Launch α} {op : SliceOp} {rest : List SliceOp}
    {action : PipeAction} (inv : Delivering state) (typed : ring.Typed)
    (two : 2 ≤ ring.net.kRanks) (id_rank : id.1 < ring.net.kRanks)
    (id_channel : id.2 < ring.net.kChannels)
    (found : ring.net.launches[(state.block id).launch]? = some launch)
    (queue : (state.block id).ops = op :: rest)
    (enabled : guard (state.block id).slice op.prim action = true)
    (effect : Effect state id launch op action after) :
    ∃ done pending,
      Placed (after.setBlock id (advance (state.block id) rest action)) id done pending
      ∧ Written (after.setBlock id (advance (state.block id) rest action)) id done pending := by
  obtain ⟨done, pending, placed, written⟩ := inv.blocks id id_rank id_channel
  obtain ⟨donePred, pendingPred, before, -⟩ :=
    inv.blocks (ring.net.pred id) (KernelRing.pred_lt id_rank) id_channel
  obtain ⟨task, later, rfl, rfl, tail⟩ := placed.pending_cons queue
  obtain rfl := placed.launch_eq found
  have started : (after.setBlock id (advance (state.block id) rest action)).started id.1 =
      state.started id.1 := congrFun effect.started id.1
  have block : (after.setBlock id (advance (state.block id) rest action)).block id =
      advance (state.block id) rest action := by
    simp [State.setBlock]
  have value (moving : action = .move) : ∀ i < task.entry.op.work,
      passValue state id task.launch task.entry.op i = task.entry.sent i := by
    subst moving
    exact fun i inside => placed.passValue_eq typed two id_rank inv.good (inv.ok _) before enabled
      inside
  by_cases ends : action = .next
  · subst ends
    have same := Option.some.inj effect.lines
    have moved : (state.block id).slice.moved = true := by
      simp only [guard, Bool.and_eq_true] at enabled
      exact enabled.1.1
    refine ⟨done ++ [task], later, placed.next tail enabled started block same.symm,
      written.next moved started ?_ ?_⟩
    · rw [block]
      rfl
    · show after.writes = _
      rw [effect.writes, if_neg (by simp)]
  · refine ⟨done, task :: later, placed.act enabled ends effect value, ?_⟩
    by_cases moves : action = .move
    · subst moves
      have unmoved : (state.block id).slice.moved = false := by
        simp only [guard, Bool.and_eq_true, Bool.not_eq_true'] at enabled
        exact enabled.2
      exact written.move placed two id_rank id_channel unmoved effect (value rfl)
    · refine written.frame placed started ?_ ?_
      · rw [block]
        cases action <;> first | rfl | contradiction
      · intro other _ j _
        show after.writes _ j = _
        rw [effect.writes, if_neg fun storing => moves storing.1]

/-- The other blocks do not notice. -/
theorem Delivering.act_other {launch : Launch α} {op : SliceOp} {next : PipeBlock}
    {action : PipeAction} (inv : Delivering state) (two : 2 ≤ ring.net.kRanks)
    (id_rank : id.1 < ring.net.kRanks) (id_channel : id.2 < ring.net.kChannels)
    (other_rank : other.1 < ring.net.kRanks) (other_channel : other.2 < ring.net.kChannels)
    (distinct : other ≠ id) (effect : Effect state id launch op action after)
    (planned : ∃ task ∈ ring.net.tasks id, task.index = (state.block id).launch ∧
      task.entry.op = op) :
    ∃ done pending, Placed (after.setBlock id next) other done pending ∧
      Written (after.setBlock id next) other done pending := by
  obtain ⟨done, pending, placed, written⟩ := inv.blocks other other_rank other_channel
  have block : (after.setBlock id next).block other = state.block other := by
    simp [State.setBlock, distinct, effect.block]
  have started : (after.setBlock id next).started other.1 = state.started other.1 :=
    congrFun effect.started other.1
  have apart : ring.net.pred other ≠ ring.net.pred id :=
    fun same => distinct (KernelRing.pred_injective other_rank id_rank same)
  refine ⟨done, pending, placed.congr started block ?_ ?_, written.frame placed started ?_ ?_⟩
  · exact lineEffect_producer effect.lines fun _ => distinct
  · exact lineEffect_consumer effect.lines fun _ => apart
  · rw [block]
  · intro left leftIn j covers
    obtain ⟨task, taskIn, index, rfl⟩ := planned
    refine effect.writes_of_not_covers fun same => ?_
    obtain ⟨rank, same⟩ := Prod.mk.inj same
    exact not_covers_of_channels two id_rank id_channel other_channel rank distinct leftIn taskIn
      (same.trans index.symm) covers

theorem Delivering.act {launch : Launch α} {op : SliceOp} {rest : List SliceOp}
    {action : PipeAction} (inv : Delivering state) (typed : ring.Typed)
    (two : 2 ≤ ring.net.kRanks) (id_rank : id.1 < ring.net.kRanks)
    (id_channel : id.2 < ring.net.kChannels)
    (found : ring.net.launches[(state.block id).launch]? = some launch)
    (queue : (state.block id).ops = op :: rest)
    (enabled : guard (state.block id).slice op.prim action = true)
    (happened : ring.effect state id launch op action = some after) :
    Delivering (after.setBlock id (advance (state.block id) rest action)) := by
  have effect := effect_spec inv.good happened
  have planned : ∃ task ∈ ring.net.tasks id, task.index = (state.block id).launch ∧
      task.entry.op = op := by
    obtain ⟨done, pending, placed, -⟩ := inv.blocks id id_rank id_channel
    obtain ⟨task, later, rfl, same, -⟩ := placed.pending_cons queue
    refine ⟨task, ?_, (placed.current task List.mem_cons_self).1, same⟩
    rw [placed.whole]
    simp
  constructor
  case good => exact effect.good
  case ok => exact lineEffect_ok effect.lines inv.ok
  case blocks =>
    intro other other_rank other_channel
    by_cases same : other = id
    · subst same
      exact inv.act_self typed two other_rank other_channel found queue enabled effect
    · exact inv.act_other two id_rank id_channel other_rank other_channel same effect planned
  case untouched =>
    intro rank index j uncovered
    refine (effect.writes_of_not_covers fun same => ?_).trans (inv.untouched rank index j uncovered)
    obtain ⟨rfl, rfl⟩ := Prod.mk.inj same
    obtain ⟨task, taskIn, index, rfl⟩ := planned
    exact uncovered id.2 id_channel task taskIn index

theorem delivering_step {label : ring.Label} (inv : Delivering state) (typed : ring.Typed)
    (two : 2 ≤ ring.net.kRanks) (stepped : ring.step state label = some state') :
    Delivering state' := by
  cases label with
  | launch rank => exact inv.launch two stepped
  | own id move => exact inv.own stepped
  | block id action =>
      obtain ⟨id_rank, id_channel, -, launch, found, ended | acted⟩ := step_block stepped
      · obtain ⟨empty, -, rfl⟩ := ended
        exact inv.retire empty
      · obtain ⟨op, rest, after, queue, enabled, happened, rfl⟩ := acted
        exact inv.act typed two id_rank id_channel found queue enabled happened

/-- Whatever serves the edges, every state of every run agrees with the plans. -/
theorem delivering_reachable (typed : ring.Typed) (two : 2 ≤ ring.net.kRanks)
    (reach : ring.Reachable state) : Delivering state :=
  StepSystem.Reachable.invariant Delivering
    (fun _ _ _ inv stepped => delivering_step inv typed two stepped) delivering_initial reach

end PipeRing
end NanoNccl
