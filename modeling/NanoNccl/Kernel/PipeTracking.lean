import NanoNccl.Kernel.PipeSteps

/-!
# Blocks and the lines of their edges

The invariant that keeps every block of the ring over pipes at a position of its tasks. What it has
sent and taken is a beginning of the two byte streams of its plan, so the slot it reads holds what
the plan expects, whichever pipe brought it there.
-/

namespace NanoNccl
namespace PipeRing

variable {α : Type*}

/-- What the flags of a slice operation say about one another. -/
structure SliceFacts (slice : SliceProgress) (prim : Prim) : Prop where
  taken : slice.taken = true → prim.recvs = true
  moved : slice.moved = true → prim.recvs = true → slice.taken = true
  released : slice.released = true → prim.recvs = true ∧ slice.moved = true
  published : slice.published = true → prim.sends = true ∧ slice.moved = true

/-- Bytes the current slice operation has written and not published. -/
def stagedBytes (codec : Codec α) (slice : SliceProgress) (pending : List (Task α)) :
    Option (List UInt8) :=
  pending.head?.bind fun task =>
    if task.entry.op.prim.sends && slice.moved && !slice.published then
      some (task.payload codec)
    else none

/-- A block is at a position of its tasks, and its two edges agree with it. -/
structure Placed {ring : PipeRing α} (state : ring.State) (id : BlockId)
    (done pending : List (Task α)) : Prop where
  whole : ring.net.tasks id =
    done ++ (pending ++ ring.net.laterTasks id (state.started id.1))
  ops : pending.map (fun task => task.entry.op) = (state.block id).ops
  current : ∀ task ∈ pending, task.index = (state.block id).launch ∧
    task.index + 1 = state.started id.1
  past : ∀ task ∈ done, task.index < state.started id.1
  returned : (state.block id).live = false → (state.block id).ops = []
  fresh : (state.block id).ops = [] → (state.block id).slice = {}
  facts : ∀ task later, pending = task :: later →
    SliceFacts (state.block id).slice task.entry.op.prim
  sent : (state.line id).producer =
    ((sentBytes ring.codec (ring.net.tasks id)).take
      ((sentBytes ring.codec done).length + (state.block id).slice.published.toNat),
    stagedBytes ring.codec (state.block id).slice pending)
  received : (state.line (ring.net.pred id)).consumer =
    ((expectedBytes ring.codec done).length + (state.block id).slice.taken.toNat,
    (state.block id).slice.taken && !(state.block id).slice.released)

variable {ring : PipeRing α} {state after state' : ring.State} {id : BlockId}
  {done pending later : List (Task α)} {task : Task α}

theorem Placed.initial (id : BlockId) : Placed ring.initial id [] [] := by
  constructor
  case whole => exact (KernelRing.laterTasks_zero id).symm
  case sent => simp [State.line, PipeRing.initial, (ring.edge id).line_start, Line.empty,
    Line.producer, stagedBytes]
  case received => simp [State.line, PipeRing.initial, (ring.edge (ring.net.pred id)).line_start,
    Line.empty, Line.consumer]
  all_goals simp [PipeRing.initial]

/-- Nothing else matters to the position of a block. -/
theorem Placed.congr (placed : Placed state id done pending)
    (started : state'.started id.1 = state.started id.1)
    (block : state'.block id = state.block id)
    (producer : (state'.line id).producer = (state.line id).producer)
    (consumer : (state'.line (ring.net.pred id)).consumer =
      (state.line (ring.net.pred id)).consumer) :
    Placed state' id done pending := by
  obtain ⟨whole, ops, current, past, returned, fresh, facts, sent, received⟩ := placed
  constructor <;> simp only [started, block, producer, consumer] <;> assumption

theorem Placed.pending_nil (placed : Placed state id done pending)
    (empty : (state.block id).ops = []) : pending = [] := by
  have ops := placed.ops
  rw [empty] at ops
  exact List.map_eq_nil_iff.mp ops

theorem Placed.pending_cons {op : SliceOp} {rest : List SliceOp}
    (placed : Placed state id done pending) (queue : (state.block id).ops = op :: rest) :
    ∃ task later, pending = task :: later ∧ task.entry.op = op ∧
      later.map (fun task => task.entry.op) = rest := by
  have ops := placed.ops
  rw [queue] at ops
  obtain ⟨task, later, rfl, head, tail⟩ := List.map_eq_cons_iff.mp ops
  exact ⟨task, later, rfl, head, tail⟩

/-- The first pending task is one of the plan. -/
theorem Placed.planned (placed : Placed state id done (task :: later)) :
    ring.net.launches[task.index]? = some task.launch ∧
      task.entry ∈ ring.net.plan task.launch id :=
  KernelRing.mem_tasks (by rw [placed.whole]; simp)

/-- The launch of the block is the one of its pending tasks. -/
theorem Placed.launch_eq {launch : Launch α} (placed : Placed state id done (task :: later))
    (found : ring.net.launches[(state.block id).launch]? = some launch) : task.launch = launch := by
  have planned := placed.planned.1
  rw [(placed.current task List.mem_cons_self).1, found] at planned
  exact (Option.some.inj planned).symm

/-- The next byte string a block sends. -/
theorem Placed.next_sent (placed : Placed state id done (task :: later))
    (sends : task.entry.op.prim.sends = true) :
    (sentBytes ring.codec (ring.net.tasks id))[(sentBytes ring.codec done).length]? =
      some (task.payload ring.codec) := by
  rw [placed.whole, sentBytes_append, List.cons_append, sentBytes_cons, sends]
  simp

/-- The next byte string a block expects. -/
theorem Placed.next_expected (placed : Placed state id done (task :: later))
    (recvs : task.entry.op.prim.recvs = true) :
    (expectedBytes ring.codec (ring.net.tasks id))[(expectedBytes ring.codec done).length]? =
      some (task.expected ring.codec) := by
  rw [placed.whole, expectedBytes_append, List.cons_append, expectedBytes_cons, recvs]
  simp

/-! ## A rank starts a launch -/

theorem Placed.enter {launch : Launch α} (placed : Placed state id done pending)
    (found : ring.net.launches[state.started id.1]? = some launch)
    (id_rank : id.1 < ring.net.kRanks) (two : 2 ≤ ring.net.kRanks)
    (quiet : (state.block id).live = false)
    (started : state'.started id.1 = state.started id.1 + 1)
    (block : state'.block id = ring.enter launch (state.started id.1) id (state.block id))
    (lines : state'.line = state.line) :
    Placed state' id done (ring.net.tasksOf id (state.started id.1) launch) := by
  have empty := placed.returned quiet
  obtain rfl := placed.pending_nil empty
  have fresh := placed.fresh empty
  have fields : (ring.enter launch (state.started id.1) id (state.block id)).ops =
        ring.net.ops launch id ∧
      (ring.enter launch (state.started id.1) id (state.block id)).launch = state.started id.1 ∧
      (ring.enter launch (state.started id.1) id (state.block id)).slice = {} ∧
      ((ring.enter launch (state.started id.1) id (state.block id)).live = false →
        ring.net.ops launch id = []) := by
    unfold PipeRing.enter
    cases share : ring.net.emptyShare launch id.2 with
    | true =>
        have none : ring.net.ops launch id = [] := by
          simp [KernelRing.ops, ring.net.kernel_of_emptyShare launch share]
        simp [empty, none, fresh]
    | false => simp
  obtain ⟨ops, index, slice, returned⟩ := fields
  constructor
  case whole =>
    rw [placed.whole, started, List.nil_append, KernelRing.laterTasks_eq found]
  case ops =>
    rw [block, ops, ← ring.net.map_op_plan launch id_rank two]
    simp [KernelRing.tasksOf]
  case current =>
    intro task member
    obtain ⟨entry, -, rfl⟩ := List.mem_map.mp member
    rw [block, index, started]
    exact ⟨rfl, rfl⟩
  case past =>
    intro task member
    have := placed.past task member
    omega
  case returned =>
    rw [block, ops]
    exact returned
  case fresh =>
    rw [block]
    exact fun _ => slice
  case facts =>
    intro task later _
    rw [block, slice]
    constructor <;> simp
  case sent =>
    rw [lines, placed.sent, block, slice, fresh]
    cases ring.net.tasksOf id (state.started id.1) launch <;> simp [stagedBytes]
  case received =>
    rw [lines, placed.received, block, slice, fresh]

theorem Placed.retire (placed : Placed state id done pending)
    (empty : (state.block id).ops = []) :
    Placed (state.setBlock id (state.block id).retire) id done pending := by
  obtain rfl := placed.pending_nil empty
  obtain ⟨whole, ops, current, past, returned, fresh, facts, sent, received⟩ := placed
  constructor <;> simp only [State.setBlock, Function.update_self, PipeBlock.retire] <;> first
    | assumption
    | exact fun _ => empty

/-! ## The data of a pass -/

theorem typed_expected (typed : ring.Typed) (placed : Placed state id done (task :: later)) :
    ∀ i < task.entry.op.work, ring.codec.Typed task.launch.dtype (task.entry.recv i) := by
  obtain ⟨found, planned⟩ := placed.planned
  exact fun i _ => (typed.plan (List.mem_of_getElem? found) planned i).1

/-- The slot a block reads holds what its task expects. -/
theorem Placed.received_eq {donePred pendingPred : List (Task α)} (typed : ring.Typed)
    (two : 2 ≤ ring.net.kRanks) (id_rank : id.1 < ring.net.kRanks) (good : state.Good)
    (ok : (state.line (ring.net.pred id)).Ok) (placed : Placed state id done (task :: later))
    (before : Placed state (ring.net.pred id) donePred pendingPred)
    (taken : (state.block id).slice.taken = true)
    (unreleased : (state.block id).slice.released = false)
    (recvs : task.entry.op.prim.recvs = true) :
    ring.received state id task.launch task.entry.op = task.expected ring.codec := by
  obtain ⟨count, busy⟩ := Prod.mk.inj placed.received
  simp only [taken, unreleased, Bool.toNat_true, Bool.not_false, Bool.and_true] at count busy
  have published := (Prod.mk.inj before.sent).1
  have streams : sentBytes ring.codec (ring.net.tasks (ring.net.pred id)) =
      expectedBytes ring.codec (ring.net.tasks id) := by
    have edges := sentBytes_tasks ring.codec (KernelRing.pred_lt id_rank) two
    rwa [KernelRing.succ_pred id_rank] at edges
  have inside := ok.taken_le
  rw [count, published, streams] at inside
  have found : (state.line (ring.net.pred id)).published[
      (expectedBytes ring.codec done).length]? = some (task.expected ring.codec) := by
    rw [published, streams, List.getElem?_take_of_lt, placed.next_expected recvs]
    rw [List.length_take] at inside
    omega
  have bytes := (ring.edge (ring.net.pred id)).peek_spec (good _) busy count found
  unfold Task.expected at bytes
  rwa [Codec.length_pack (typed_expected typed placed)] at bytes

/-- The pass of a slice operation produces what its task sends. -/
theorem Placed.passValue_eq {donePred pendingPred : List (Task α)} (typed : ring.Typed)
    (two : 2 ≤ ring.net.kRanks) (id_rank : id.1 < ring.net.kRanks) (good : state.Good)
    (ok : (state.line (ring.net.pred id)).Ok) (placed : Placed state id done (task :: later))
    (before : Placed state (ring.net.pred id) donePred pendingPred)
    (enabled : guard (state.block id).slice task.entry.op.prim .move = true) {i : ℕ}
    (inside : i < task.entry.op.work) :
    passValue state id task.launch task.entry.op i = task.entry.sent i := by
  have sound := (KernelRing.planOk two).sound id id_rank task.entry placed.planned.2
  rw [sound]
  unfold passValue produced
  cases recvs : task.entry.op.prim.recvs with
  | false => exact KernelRing.produce_of_not_recvs recvs _ _
  | true =>
      simp only [guard, recvs, Bool.not_true, Bool.false_or, Bool.and_eq_true,
        Bool.not_eq_true'] at enabled
      have unreleased : (state.block id).slice.released = false := by
        by_contra released
        have moved := ((placed.facts task later rfl).released (by simpa using released)).2
        simp [moved] at enabled
      rw [placed.received_eq typed two id_rank good ok before enabled.1 unreleased recvs,
        Task.expected, Codec.element_pack (typed_expected typed placed) inside]

theorem pack_congr (codec : Codec α) (dtype : DType) {work : ℕ} {left right : ℕ → α}
    (same : ∀ i < work, left i = right i) :
    codec.pack dtype work left = codec.pack dtype work right :=
  List.flatMap_congr fun i member => by rw [same i (List.mem_range.mp member)]

/-! ## A block acts -/

/-- Inside a slice operation a block keeps its position. -/
theorem Placed.inside (placed : Placed state id done (task :: later)) {slice : SliceProgress}
    (started : state'.started id.1 = state.started id.1)
    (block : state'.block id = { state.block id with slice := slice })
    (facts : SliceFacts slice task.entry.op.prim)
    (sent : (state'.line id).producer =
      ((sentBytes ring.codec (ring.net.tasks id)).take
        ((sentBytes ring.codec done).length + slice.published.toNat),
      stagedBytes ring.codec slice (task :: later)))
    (received : (state'.line (ring.net.pred id)).consumer =
      ((expectedBytes ring.codec done).length + slice.taken.toNat,
      slice.taken && !slice.released)) :
    Placed state' id done (task :: later) := by
  have busy : (state.block id).ops ≠ [] := by
    rw [← placed.ops]
    simp
  constructor
  case whole => rw [started, placed.whole]
  case ops => rw [block, placed.ops]
  case current => rw [block, started]; exact placed.current
  case past => rw [started]; exact placed.past
  case returned => rw [block]; exact placed.returned
  case fresh => rw [block]; exact fun empty => absurd empty busy
  case facts =>
    rintro first rest position
    obtain rfl : task = first := by simpa using (List.cons.inj position).1
    rw [block]
    exact facts
  case sent => rw [block]; exact sent
  case received => rw [block]; exact received

/-- Finishing a slice operation moves its task from pending to done. -/
theorem Placed.next (placed : Placed state id done (task :: later)) {rest : List SliceOp}
    (queue : later.map (fun task => task.entry.op) = rest)
    (enabled : guard (state.block id).slice task.entry.op.prim .next = true)
    (started : state'.started id.1 = state.started id.1)
    (block : state'.block id = advance (state.block id) rest .next)
    (lines : state'.line = state.line) : Placed state' id (done ++ [task]) later := by
  have facts := placed.facts task later rfl
  simp only [guard, Bool.and_eq_true, Bool.or_eq_true, Bool.not_eq_true'] at enabled
  obtain ⟨⟨moved, released⟩, published⟩ := enabled
  have tail : (state.block id).slice.published = task.entry.op.prim.sends := by
    have := facts.published
    cases posted : (state.block id).slice.published <;> simp_all
  have head : (state.block id).slice.released = task.entry.op.prim.recvs := by
    have := facts.released
    cases posted : (state.block id).slice.released <;> simp_all
  have taken : (state.block id).slice.taken = task.entry.op.prim.recvs := by
    have first := facts.taken
    have second := facts.moved moved
    cases posted : (state.block id).slice.taken <;> simp_all
  have current := placed.current task List.mem_cons_self
  constructor
  case whole => rw [placed.whole, started]; simp
  case ops => rw [block, advance, queue]
  case current =>
    intro other member
    rw [block, started]
    exact placed.current other (List.mem_cons_of_mem task member)
  case past =>
    intro other member
    rw [started]
    rcases List.mem_append.mp member with old | new
    · exact placed.past other old
    · obtain rfl := List.mem_singleton.mp new
      omega
  case returned =>
    intro quiet
    rw [block] at quiet
    have empty := placed.returned quiet
    rw [← placed.ops] at empty
    simp at empty
  case fresh => rw [block]; exact fun _ => rfl
  case facts => rw [block]; intro other rest _; constructor <;> simp [advance]
  case sent =>
    rw [lines, block, placed.sent, tail, sentBytes_append, sentBytes_cons, sentBytes_nil]
    refine Prod.ext ?_ ?_
    · cases task.entry.op.prim.sends <;> simp [advance]
    · cases later <;> cases sends : task.entry.op.prim.sends <;>
        simp [stagedBytes, advance, sends, tail]
  case received =>
    rw [lines, block, placed.received, taken, head, expectedBytes_append, expectedBytes_cons,
      expectedBytes_nil]
    cases task.entry.op.prim.recvs <;> simp [advance]

/-- Every other action keeps the block at its task. -/
theorem Placed.act {rest : List SliceOp} {action : PipeAction}
    (placed : Placed state id done (task :: later))
    (enabled : guard (state.block id).slice task.entry.op.prim action = true)
    (stays : action ≠ .next)
    (effect : Effect state id task.launch task.entry.op action after)
    (value : action = .move → ∀ i < task.entry.op.work,
      passValue state id task.launch task.entry.op i = task.entry.sent i) :
    Placed (after.setBlock id (advance (state.block id) rest action)) id done
      (task :: later) := by
  have facts := placed.facts task later rfl
  have started : (after.setBlock id (advance (state.block id) rest action)).started id.1 =
      state.started id.1 := congrFun effect.started id.1
  have block : (after.setBlock id (advance (state.block id) rest action)).block id =
      advance (state.block id) rest action := by simp [State.setBlock]
  have lines : (after.setBlock id (advance (state.block id) rest action)).line = after.line := rfl
  have producer (quiet : produces action = false) :
      (after.line id).producer = (state.line id).producer :=
    lineEffect_producer effect.lines (by simp [quiet])
  have consumer (quiet : consumes action = false) :
      (after.line (ring.net.pred id)).consumer = (state.line (ring.net.pred id)).consumer :=
    lineEffect_consumer effect.lines (by simp [quiet])
  have happened := effect.lines
  cases action with
  | next => exact absurd rfl stays
  | ret => simp [guard] at enabled
  | take =>
      simp only [guard, Bool.and_eq_true, Bool.not_eq_true'] at enabled
      refine placed.inside started block ⟨fun _ => enabled.1, fun _ _ => rfl, facts.released,
        facts.published⟩ ?_ ?_
      · rw [lines, producer rfl, placed.sent]
        rfl
      · obtain ⟨line, taken, same⟩ := Option.map_eq_some_iff.mp happened
        obtain ⟨idle, -, rfl⟩ := Line.take_eq_some.mp taken
        have unreleased : (state.block id).slice.released = false := by
          by_contra released
          obtain ⟨recvs, moved⟩ := facts.released (by simpa using released)
          simp [facts.moved moved recvs] at enabled
        have count := (Prod.mk.inj placed.received).1
        rw [lines, ← same, Function.update_self]
        simp [Line.consumer, count, enabled.2, unreleased]
  | move =>
      simp only [guard, Bool.and_eq_true, Bool.or_eq_true, Bool.not_eq_true'] at enabled
      obtain ⟨arrived, unmoved⟩ := enabled
      have unpublished : (state.block id).slice.published = false := by
        by_contra published
        simp [(facts.published (by simpa using published)).2] at unmoved
      refine placed.inside started block ⟨facts.taken, ?_, ?_, ?_⟩ ?_ ?_
      · intro _ recvs
        simpa [recvs] using arrived
      · intro released
        exact ⟨(facts.released released).1, rfl⟩
      · intro published
        exact ⟨(facts.published published).1, rfl⟩
      · have position := placed.sent
        rw [lines]
        simp only [lineEffect] at happened
        cases sends : task.entry.op.prim.sends with
        | false =>
            rw [sends, if_neg Bool.false_ne_true] at happened
            rw [← Option.some.inj happened, position]
            simp [stagedBytes, sends]
        | true =>
            rw [sends, if_pos rfl] at happened
            obtain ⟨line, staged, same⟩ := Option.map_eq_some_iff.mp happened
            obtain ⟨-, rfl⟩ := Line.stage_eq_some.mp staged
            have payload : ring.codec.pack task.launch.dtype task.entry.op.work
                (passValue state id task.launch task.entry.op) = task.payload ring.codec :=
              pack_congr ring.codec _ (value rfl)
            rw [← same, Function.update_self]
            refine Prod.ext ?_ ?_
            · exact (Prod.mk.inj position).1
            · simp [Line.producer, payload, stagedBytes, sends, unpublished]
      · rw [lines, consumer rfl, placed.received]
  | release =>
      simp only [guard, Bool.and_eq_true, Bool.not_eq_true'] at enabled
      obtain ⟨⟨recvs, moved⟩, unreleased⟩ := enabled
      refine placed.inside started block ⟨facts.taken, facts.moved, fun _ => ⟨recvs, moved⟩,
        facts.published⟩ ?_ ?_
      · rw [lines, producer rfl, placed.sent]
        rfl
      · obtain ⟨line, released, same⟩ := Option.map_eq_some_iff.mp happened
        obtain ⟨-, rfl⟩ := Line.release_eq_some.mp released
        have count := (Prod.mk.inj placed.received).1
        rw [lines, ← same, Function.update_self]
        simp [Line.consumer, count]
  | publish =>
      simp only [guard, Bool.and_eq_true, Bool.not_eq_true'] at enabled
      obtain ⟨⟨sends, moved⟩, unpublished⟩ := enabled
      refine placed.inside started block ⟨facts.taken, facts.moved, facts.released,
        fun _ => ⟨sends, moved⟩⟩ ?_ ?_
      · obtain ⟨line, published, same⟩ := Option.map_eq_some_iff.mp happened
        obtain ⟨payload, staged, rfl⟩ := Line.publish_eq_some.mp published
        obtain ⟨history, current⟩ := Prod.mk.inj placed.sent
        have written : payload = task.payload ring.codec := by
          rw [staged] at current
          simpa [stagedBytes, sends, moved, unpublished] using current
        rw [lines, ← same, Function.update_self]
        refine Prod.ext ?_ ?_
        · simp only [Line.producer, history, unpublished, Bool.toNat_false, Nat.add_zero,
            Bool.toNat_true, List.take_add_one, placed.next_sent sends, written,
            Option.toList_some]
        · simp [Line.producer, stagedBytes]
      · rw [lines, consumer rfl, placed.received]

end PipeRing
end NanoNccl
