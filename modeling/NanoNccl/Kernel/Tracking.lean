import NanoNccl.Kernel.Pairing

/-!
# Running blocks and their plans

Laying the plans of all launches one after the other gives each block one long plan. The
invariant here keeps every running block at a position of that plan: what it has done fixes its
local steps, and what it has posted and consumed is a beginning of the streams of its two edges.
-/

namespace NanoNccl
namespace KernelRing

variable {α : Type*}

/-! ## Plans of several launches -/

/-- A plan moved later by `start`. -/
def delayed (start : ℕ) (entries : List (Entry α)) : List (Entry α) :=
  entries.map fun entry => { entry with time := start + entry.time }

variable (net : KernelRing α)

/-- Plans of launches performed one after the other from time `start` on. -/
def planFrom (id : BlockId) : ℕ → List (Launch α) → List (Entry α)
  | _, [] => []
  | start, launch :: launches =>
      delayed start (net.plan launch id) ++ planFrom id (start + net.span launch) launches

/-- The plan of all launches. -/
def wholePlan (id : BlockId) : List (Entry α) := net.planFrom id 0 net.launches

/-- Logical time at which launch `index` starts. -/
def clock (index : ℕ) : ℕ := ((net.launches.take index).map net.span).sum

/-- Plan of the launches from `index` on. -/
def future (id : BlockId) (index : ℕ) : List (Entry α) :=
  net.planFrom id (net.clock index) (net.launches.drop index)

variable {net}

@[simp] theorem clock_zero : net.clock 0 = 0 := by simp [clock]

theorem clock_succ {index : ℕ} {launch : Launch α} (found : net.launches[index]? = some launch) :
    net.clock (index + 1) = net.clock index + net.span launch := by
  unfold clock
  rw [List.take_add_one, found]
  simp

theorem future_zero (id : BlockId) : net.future id 0 = net.wholePlan id := by
  simp [future, wholePlan]

theorem future_eq {index : ℕ} {launch : Launch α} (found : net.launches[index]? = some launch)
    (id : BlockId) :
    net.future id index =
      delayed (net.clock index) (net.plan launch id) ++ net.future id (index + 1) := by
  obtain ⟨inside, rfl⟩ := List.getElem?_eq_some_iff.mp found
  unfold future
  rw [List.drop_eq_getElem_cons inside, planFrom, clock_succ found]

theorem outgoing_delayed (start : ℕ) (entries : List (Entry α)) :
    outgoing (delayed start entries) =
      (outgoing entries).map fun slice => (start + slice.1, slice.2) := by
  unfold outgoing delayed
  rw [List.flatMap_map, List.map_flatMap]
  refine List.flatMap_congr fun entry _ => ?_
  cases entry.op.prim.sends <;> simp [Nat.add_assoc]

theorem incoming_delayed (start : ℕ) (entries : List (Entry α)) :
    incoming (delayed start entries) =
      (incoming entries).map fun slice => (start + slice.1, slice.2) := by
  unfold incoming delayed
  rw [List.flatMap_map, List.map_flatMap]
  refine List.flatMap_congr fun entry _ => ?_
  cases entry.op.prim.recvs <;> simp

/-- What a block sends in any launches is what its successor receives in them. -/
theorem outgoing_planFrom {id : BlockId} (id_rank : id.1 < net.kRanks) (two : 2 ≤ net.kRanks)
    (start : ℕ) (launches : List (Launch α)) :
    outgoing (net.planFrom id start launches) =
      incoming (net.planFrom (net.succ id) start launches) := by
  induction launches generalizing start with
  | nil => rfl
  | cons launch launches ih =>
      simp only [planFrom, outgoing_append, incoming_append, outgoing_delayed, incoming_delayed,
        net.outgoing_plan launch id_rank two, ih]

theorem outgoing_future {id : BlockId} (id_rank : id.1 < net.kRanks) (two : 2 ≤ net.kRanks)
    (index : ℕ) : outgoing (net.future id index) = incoming (net.future (net.succ id) index) :=
  outgoing_planFrom id_rank two _ _

theorem outgoing_wholePlan {id : BlockId} (id_rank : id.1 < net.kRanks) (two : 2 ≤ net.kRanks) :
    outgoing (net.wholePlan id) = incoming (net.wholePlan (net.succ id)) :=
  outgoing_planFrom id_rank two _ _

theorem le_time_planFrom {id : BlockId} {start : ℕ} {launches : List (Launch α)}
    {entry : Entry α} (member : entry ∈ net.planFrom id start launches) : start ≤ entry.time := by
  induction launches generalizing start with
  | nil => simp [planFrom] at member
  | cons launch launches ih =>
      rw [planFrom, List.mem_append] at member
      rcases member with member | member
      · obtain ⟨original, -, rfl⟩ := List.mem_map.mp member
        exact Nat.le_add_right start original.time
      · have := ih member
        omega

theorem time_delayed_plan {launch : Launch α} {id : BlockId} {start : ℕ} {entry : Entry α}
    (member : entry ∈ delayed start (net.plan launch id)) :
    entry.time < start + net.span launch := by
  obtain ⟨original, found, rfl⟩ := List.mem_map.mp member
  exact Nat.add_lt_add_left (net.time_mem_plan launch found) start

theorem timed_planFrom (id : BlockId) (start : ℕ) (launches : List (Launch α)) :
    Timed (net.planFrom id start launches) := by
  induction launches generalizing start with
  | nil => exact List.Pairwise.nil
  | cons launch launches ih =>
      unfold Timed at ih ⊢
      rw [planFrom, List.pairwise_append]
      refine ⟨?_, ih _, ?_⟩
      · unfold delayed
        rw [List.pairwise_map]
        exact (net.timed_plan launch id).imp fun earlier => Nat.add_lt_add_left earlier start
      · intro earlier earlierIn later laterIn
        exact lt_of_lt_of_le (time_delayed_plan earlierIn) (le_time_planFrom laterIn)

theorem timed_wholePlan (id : BlockId) : Timed (net.wholePlan id) := timed_planFrom id 0 _

/-! ## Slices in order and in step number -/

/-- The slices of a stream, as step and payload bytes. -/
def numbered (base : ℕ) (stream : List (ℕ × ℕ × (ℕ → α))) : List (ℕ × ℕ) :=
  stream.zipIdx.map fun (slice, index) => (base + kSliceSteps * index, slice.2.1)

theorem numbered_take_succ {base : ℕ} {stream : List (ℕ × ℕ × (ℕ → α))} {index : ℕ}
    {slice : ℕ × ℕ × (ℕ → α)} (found : stream[index]? = some slice) :
    numbered base (stream.take (index + 1)) =
      numbered base (stream.take index) ++ [(base + kSliceSteps * index, slice.2.1)] := by
  obtain ⟨inside, -⟩ := List.getElem?_eq_some_iff.mp found
  have length : (stream.take index).length = index := by
    rw [List.length_take]
    omega
  unfold numbered
  rw [List.take_add_one, found, List.zipIdx_append, List.map_append, length]
  simp

theorem numbered_take_prefix (base : ℕ) (stream : List (ℕ × ℕ × (ℕ → α))) {first second : ℕ}
    (ordered : first ≤ second) :
    numbered base (stream.take first) <+: numbered base (stream.take second) := by
  obtain ⟨rest, split⟩ : stream.take first <+: stream.take second :=
    List.take_prefix_take_left ordered
  unfold numbered
  rw [← split, List.zipIdx_append, List.map_append]
  exact List.prefix_append _ _

/-! ## Position of a block in its plan -/

/-- Block `id` has done `done`, has `pending` left in its current launch, and both edges show
exactly that. -/
structure Tracked (net : KernelRing α) (base : BlockId → ℕ) (state : RingState α) (id : BlockId)
    (done pending : List (Entry α)) : Prop where
  whole : net.wholePlan id = done ++ (pending ++ net.future id (state.started id.1))
  ops : pending.map Entry.op = (state.block id).ops
  running : (state.block id).live = true →
    ∃ launch, net.launches[(state.block id).launch]? = some launch
  bytes : ∀ launch, net.launches[(state.block id).launch]? = some launch →
    ∀ entry ∈ pending, entry.bytes = entry.op.work * launch.dtype.size
  soon : ∀ entry ∈ pending, entry.time < net.clock (state.started id.1)
  sendStep : (state.block id).sendStep = base id + kSliceSteps * (outgoing done).length
  recvStep : (state.block id).recvStep =
    base (net.pred id) + kSliceSteps * (incoming done).length
  posted : state.posted id = numbered (base id) ((outgoing (net.wholePlan id)).take
    ((outgoing done).length + (state.block id).slice.postedTail.toNat))
  consumed : state.consumed id = numbered (base (net.pred id))
    ((incoming (net.wholePlan id)).take
      ((incoming done).length + (state.block id).slice.postedHead.toNat))

/-- Every block is at a position of its plan. -/
def AllTracked (net : KernelRing α) (base : BlockId → ℕ) (state : RingState α) : Prop :=
  ∀ id : BlockId, id.1 < net.kRanks → id.2 < net.kChannels →
    ∃ done pending, Tracked net base state id done pending

variable {base : BlockId → ℕ} {state : RingState α} {id : BlockId} {done pending : List (Entry α)}

theorem bytes_mem_plan {launch : Launch α} {entry : Entry α}
    (member : entry ∈ net.plan launch id) :
    entry.bytes = entry.op.work * launch.dtype.size := by
  simp only [plan, planEntries, passEntries, Round.entries, List.mem_flatMap, List.mem_map]
    at member
  obtain ⟨_, _, _, _, _, _, rfl⟩ := member
  rfl

theorem op_delayed (start : ℕ) (entries : List (Entry α)) :
    (delayed start entries).map Entry.op = entries.map Entry.op := by
  simp only [delayed, List.map_map]
  rfl

/-- Position, steps and histories of a block depend on nothing else. -/
theorem Tracked.congr {state' : RingState α} (tracked : Tracked net base state id done pending)
    (started : state'.started id.1 = state.started id.1)
    (block : state'.block id = state.block id) (posted : state'.posted id = state.posted id)
    (consumed : state'.consumed id = state.consumed id) :
    Tracked net base state' id done pending := by
  obtain ⟨whole, ops, running, bytes, soon, sendStep, recvStep, posted₀, consumed₀⟩ := tracked
  constructor <;> simp only [started, block, posted, consumed] <;> assumption

theorem Tracked.pending_nil (tracked : Tracked net base state id done pending)
    (empty : (state.block id).ops = []) : pending = [] := by
  have ops := tracked.ops
  rw [empty] at ops
  exact List.map_eq_nil_iff.mp ops

/-- The current slice operation is the first pending entry. -/
theorem Tracked.pending_cons {op : SliceOp} {rest : List SliceOp}
    (tracked : Tracked net base state id done pending)
    (queue : (state.block id).ops = op :: rest) :
    ∃ entry later, pending = entry :: later ∧ entry.op = op ∧ later.map Entry.op = rest := by
  have ops := tracked.ops
  rw [queue] at ops
  obtain ⟨entry, later, rfl, head, tail⟩ := List.map_eq_cons_iff.mp ops
  exact ⟨entry, later, rfl, head, tail⟩

/-- The next slice a block sends is the one its first pending entry produces. -/
theorem Tracked.next_outgoing {entry : Entry α} {later : List (Entry α)}
    (tracked : Tracked net base state id done (entry :: later))
    (sends : entry.op.prim.sends = true) :
    (outgoing (net.wholePlan id))[(outgoing done).length]? =
      some (entry.time + 2, entry.bytes, entry.sent) := by
  rw [tracked.whole, outgoing_append, List.cons_append, outgoing_cons, sends]
  simp

/-- The next slice a block receives is the one its first pending entry expects. -/
theorem Tracked.next_incoming {entry : Entry α} {later : List (Entry α)}
    (tracked : Tracked net base state id done (entry :: later))
    (recvs : entry.op.prim.recvs = true) :
    (incoming (net.wholePlan id))[(incoming done).length]? =
      some (entry.time, entry.bytes, entry.recv) := by
  rw [tracked.whole, incoming_append, List.cons_append, incoming_cons, recvs]
  simp

/-- Starting a launch makes its plan pending. -/
theorem Tracked.enter {launch : Launch α} {state' : RingState α}
    (tracked : Tracked net base state id done pending) (ok : BlockOk net state id)
    (found : net.launches[state.started id.1]? = some launch) (id_rank : id.1 < net.kRanks)
    (two : 2 ≤ net.kRanks) (quiet : (state.block id).live = false)
    (started : state'.started id.1 = state.started id.1 + 1)
    (block : state'.block id = net.enter launch (state.started id.1) id (state.block id))
    (posted : state'.posted id = state.posted id)
    (consumed : state'.consumed id = state.consumed id) :
    Tracked net base state' id done
      (delayed (net.clock (state.started id.1)) (net.plan launch id)) := by
  obtain ⟨empty, sendBase, recvBase⟩ := ok.returned quiet
  obtain rfl := tracked.pending_nil empty
  have fresh := ok.empty empty
  have fields : (net.enter launch (state.started id.1) id (state.block id)).ops =
        net.ops launch id ∧
      (net.enter launch (state.started id.1) id (state.block id)).launch = state.started id.1 ∧
      (net.enter launch (state.started id.1) id (state.block id)).slice =
        (state.block id).slice ∧
      (net.enter launch (state.started id.1) id (state.block id)).sendStep =
        (state.block id).sendStep ∧
      (net.enter launch (state.started id.1) id (state.block id)).recvStep =
        (state.block id).recvStep := by
    unfold KernelRing.enter
    cases share : net.emptyShare launch id.2 with
    | true => simp [empty, KernelRing.ops, net.kernel_of_emptyShare launch share]
    | false => simp [fresh, sendBase, recvBase]
  obtain ⟨ops, index, slice, sendStep, recvStep⟩ := fields
  constructor
  case whole =>
    rw [tracked.whole, started, List.nil_append, future_eq found]
  case ops =>
    rw [block, ops, op_delayed, net.map_op_plan launch id_rank two]
  case running =>
    intro _
    exact ⟨launch, by rw [block, index, found]⟩
  case bytes =>
    intro launch' found' entry member
    rw [block, index, found] at found'
    obtain rfl := Option.some.inj found'
    obtain ⟨original, inside, rfl⟩ := List.mem_map.mp member
    have bytes := bytes_mem_plan inside
    exact bytes
  case soon =>
    intro entry member
    rw [started, clock_succ found]
    exact time_delayed_plan member
  case sendStep => rw [block, sendStep, tracked.sendStep]
  case recvStep => rw [block, recvStep, tracked.recvStep]
  case posted => rw [posted, block, slice, tracked.posted]
  case consumed => rw [consumed, block, slice, tracked.consumed]

/-- Finishing a slice operation moves its entry from pending to done. -/
theorem Tracked.next {launch : Launch α} {entry : Entry α} {later : List (Entry α)}
    (tracked : Tracked net base state id done (entry :: later)) {rest : List SliceOp}
    (queue : later.map Entry.op = rest)
    (flags : SliceOk launch entry.op (state.block id).slice)
    (enabled : guard launch (state.block id) entry.op .next = true) :
    Tracked net base
      (net.perform launch state id (state.block id) entry.op rest .next) id
      (done ++ [entry]) later := by
  simp only [guard, Bool.and_eq_true, Bool.or_eq_true, Bool.not_eq_true'] at enabled
  have tail : (state.block id).slice.postedTail = entry.op.prim.sends := by
    have := flags.postedTail
    cases posted : (state.block id).slice.postedTail <;> simp_all
  have head : (state.block id).slice.postedHead = entry.op.prim.recvs := by
    have := flags.postedHead
    cases posted : (state.block id).slice.postedHead <;> simp_all
  have sent : (outgoing (done ++ [entry])).length =
      (outgoing done).length + entry.op.prim.sends.toNat := by
    rw [outgoing_append, outgoing_cons]
    cases entry.op.prim.sends <;> simp
  have received : (incoming (done ++ [entry])).length =
      (incoming done).length + entry.op.prim.recvs.toNat := by
    rw [incoming_append, incoming_cons]
    cases entry.op.prim.recvs <;> simp
  have block : (net.perform launch state id (state.block id) entry.op rest .next).block =
      Function.update state.block id
        (net.act state id (state.block id) entry.op rest .next) := rfl
  constructor
  case whole => simpa using tracked.whole
  case ops =>
    rw [block, Function.update_self]
    exact queue
  case running =>
    rw [block, Function.update_self, act_launch, act_live]
    exact tracked.running
  case bytes =>
    intro launch' found' other member
    rw [block, Function.update_self, act_launch] at found'
    exact tracked.bytes launch' found' other (List.mem_cons_of_mem entry member)
  case soon =>
    intro other member
    rw [perform_started]
    exact tracked.soon other (List.mem_cons_of_mem entry member)
  case sendStep =>
    rw [block, Function.update_self, sent]
    simp only [act, tracked.sendStep]
    cases entry.op.prim.sends
    · simp
    · simp
      ring
  case recvStep =>
    rw [block, Function.update_self, received]
    simp only [act, tracked.recvStep]
    cases entry.op.prim.recvs
    · simp
    · simp
      ring
  case posted =>
    have before := tracked.posted
    rw [block, Function.update_self, sent]
    rw [tail] at before
    simpa [act, perform] using before
  case consumed =>
    have before := tracked.consumed
    rw [block, Function.update_self, received]
    rw [head] at before
    simpa [act, perform] using before

/-- Publishing a counter adds the current slice to its stream; other actions inside a slice
operation change neither position nor streams. -/
theorem Tracked.inside {launch : Launch α} {entry : Entry α} {later : List (Entry α)}
    {rest : List SliceOp} {action : Action}
    (tracked : Tracked net base state id done (entry :: later))
    (found : net.launches[(state.block id).launch]? = some launch)
    (enabled : guard launch (state.block id) entry.op action = true) (stays : action ≠ .next) :
    Tracked net base
      (net.perform launch state id (state.block id) entry.op rest action) id done
      (entry :: later) := by
  have bytes := tracked.bytes launch found entry List.mem_cons_self
  have steps : (net.act state id (state.block id) entry.op rest action).ops =
        (state.block id).ops ∧
      (net.act state id (state.block id) entry.op rest action).sendStep =
        (state.block id).sendStep ∧
      (net.act state id (state.block id) entry.op rest action).recvStep =
        (state.block id).recvStep := by
    cases action <;> simp [act] at stays ⊢
  obtain ⟨ops, sendStep, recvStep⟩ := steps
  constructor
  case whole => rw [perform_started, tracked.whole]
  case ops => rw [perform_block, Function.update_self, ops, tracked.ops]
  case running =>
    rw [perform_block, Function.update_self, act_launch, act_live]
    exact tracked.running
  case bytes =>
    intro launch' found'
    rw [perform_block, Function.update_self, act_launch] at found'
    exact tracked.bytes launch' found'
  case soon =>
    rw [perform_started]
    exact tracked.soon
  case sendStep => rw [perform_block, Function.update_self, sendStep, tracked.sendStep]
  case recvStep => rw [perform_block, Function.update_self, recvStep, tracked.recvStep]
  case posted =>
    have before := tracked.posted
    rw [perform_block, Function.update_self]
    cases action <;> try exact before
    case next => exact absurd rfl stays
    case postTail =>
      simp only [guard, Bool.and_eq_true, Bool.not_eq_true'] at enabled
      have next := tracked.next_outgoing enabled.1.1.1.1
      rw [enabled.1.1.2, Bool.toNat_false, Nat.add_zero] at before
      simp only [perform, act, Function.update_self, Bool.toNat_true]
      rw [numbered_take_succ next, before, tracked.sendStep, bytes]
  case consumed =>
    have before := tracked.consumed
    rw [perform_block, Function.update_self]
    cases action <;> try exact before
    case next => exact absurd rfl stays
    case postHead =>
      simp only [guard, Bool.and_eq_true, Bool.not_eq_true'] at enabled
      have next := tracked.next_incoming enabled.1.1
      rw [enabled.2, Bool.toNat_false, Nat.add_zero] at before
      simp only [perform, act, Function.update_self, Bool.toNat_true]
      rw [numbered_take_succ next, before, tracked.recvStep, bytes]

theorem Tracked.retire (tracked : Tracked net base state id done pending) :
    Tracked net base
      { state with block := Function.update state.block id (KernelRing.retire (state.block id)) }
      id done pending := by
  obtain ⟨whole, ops, running, bytes, soon, sendStep, recvStep, posted, consumed⟩ := tracked
  constructor <;> simp only [Function.update_self, KernelRing.retire] <;> first
    | assumption
    | simp

theorem allTracked_initial (base : BlockId → ℕ) (fifo : BlockId → ℕ → α)
    (output : ℕ × ℕ → ℕ → α) : AllTracked net base (net.initial base fifo output) := by
  intro id _ _
  refine ⟨[], [], ?_⟩
  constructor <;> simp [initial, future_zero, numbered]

/-- Every step keeps every block at a position of its plan. -/
theorem allTracked_step {state' : RingState α} {label : RingLabel} (two : 2 ≤ net.kRanks)
    (control : Control net state) (tracked : AllTracked net base state)
    (stepped : net.step state label = some state') : AllTracked net base state' := by
  intro other other_rank other_channel
  obtain ⟨done, pending, before⟩ := tracked other other_rank other_channel
  cases label with
  | launch rank =>
      obtain ⟨launch, found, -, idle, rfl⟩ := step_launch stepped
      by_cases entering : other.1 = rank
      · subst entering
        refine ⟨done, _, before.enter (control other other_rank other_channel) found other_rank
          two (idle other.2 other_channel) ?_ ?_ rfl rfl⟩
        · simp
        · simp [other_channel]
      · refine ⟨done, pending, before.congr ?_ ?_ rfl rfl⟩
        · simp [entering]
        · simp [entering]
  | block id action =>
      obtain ⟨id_rank, id_channel, live, launch, found, finished | continued⟩ :=
        step_block stepped
      · obtain ⟨finished, -, rfl⟩ := finished
        refine ⟨done, pending, ?_⟩
        by_cases same : other = id
        · subst same
          exact before.retire
        · exact before.congr rfl (Function.update_of_ne same _ _) rfl rfl
      · obtain ⟨op, rest, queue, enabled, rfl⟩ := continued
        by_cases same : other = id
        · subst same
          obtain ⟨entry, later, rfl, rfl, laterOps⟩ := before.pending_cons queue
          have flags := (control other other_rank other_channel).slice launch entry.op rest found
            queue
          by_cases ends : action = .next
          · subst ends
            exact ⟨done ++ [entry], later, before.next laterOps flags enabled⟩
          · exact ⟨done, entry :: later, before.inside found enabled ends⟩
        · refine ⟨done, pending, before.congr ?_ ?_ ?_ ?_⟩
          · rw [perform_started]
          · rw [perform_block, Function.update_of_ne same]
          · cases action <;> simp [perform, same]
          · cases action <;> simp [perform, same]

/-- Control and position of every block, in every reachable state. -/
theorem tracked_reachable {fifo : BlockId → ℕ → α} {output : ℕ × ℕ → ℕ → α}
    (two : 2 ≤ net.kRanks)
    (reach : StepSystem.Reachable net.step (net.initial base fifo output) state) :
    Control net state ∧ AllTracked net base state := by
  refine StepSystem.Reachable.invariant
    (fun state => Control net state ∧ AllTracked net base state) ?_ ?_ reach
  · intro before label after inv stepped
    exact ⟨control_step inv.1 stepped, allTracked_step two inv.1 inv.2 stepped⟩
  · exact ⟨control_initial base fifo output, allTracked_initial base fifo output⟩

end KernelRing
end NanoNccl
