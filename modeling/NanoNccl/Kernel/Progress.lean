import NanoNccl.Kernel.Edges

/-!
# The ring cannot deadlock

Entries of the plans carry a logical time. A block that waits for data waits for an entry of its
predecessor that is two units older; a block that waits for credit waits for an entry of its
successor that is at least two units older, because four slices separate the two. So the live
block whose next entry is oldest never waits.
-/

namespace NanoNccl
namespace KernelRing

variable {α : Type*} {net : KernelRing α} {state : RingState α} {base : BlockId → ℕ}

/-! ## Enabled ranks -/

/-- The next step of a block is not a wait, or the counters satisfy what it waits for. -/
def BlockEnabled (net : KernelRing α) (state : RingState α) (id : BlockId) : Prop :=
  (state.block id).live = true ∧ ∀ op rest, (state.block id).ops = op :: rest →
    (op.prim.recvs = true → (state.block id).slice.waitedRecv = false →
      (state.block id).recvStep + kSliceSteps ≤ state.tail (net.pred id)) ∧
    (op.prim.sends = true → (state.block id).slice.waitedSend = false →
      (state.block id).sendStep + kSliceSteps ≤ state.head id + kFifoSteps)

/-- The rank can start its next launch, or one of its blocks can go on. -/
def RankEnabled (net : KernelRing α) (state : RingState α) (rank : ℕ) : Prop :=
  (net.idle state rank ∧ state.started rank < net.launches.length) ∨
    ∃ channel < net.kChannels, BlockEnabled net state (rank, channel)

instance (net : KernelRing α) (state : RingState α) (id : BlockId) :
    Decidable (BlockEnabled net state id) :=
  decidable_of_iff
    ((state.block id).live = true ∧ ∀ op ∈ (state.block id).ops.head?,
      (op.prim.recvs = true → (state.block id).slice.waitedRecv = false →
        (state.block id).recvStep + kSliceSteps ≤ state.tail (net.pred id)) ∧
      (op.prim.sends = true → (state.block id).slice.waitedSend = false →
        (state.block id).sendStep + kSliceSteps ≤ state.head id + kFifoSteps))
    (and_congr_right fun _ => ⟨fun each op rest queue => each op (by simp [queue]),
      fun each op first => by
        obtain ⟨rest, queue⟩ := List.head?_eq_some_iff.mp first
        exact each op rest queue⟩)

instance (net : KernelRing α) (state : RingState α) (rank : ℕ) :
    Decidable (RankEnabled net state rank) :=
  inferInstanceAs (Decidable (_ ∨ ∃ channel < net.kChannels, _))

/-- The rank has returned from all its launches. -/
def RankFinished (net : KernelRing α) (state : RingState α) (rank : ℕ) : Prop :=
  state.started rank = net.launches.length ∧ net.idle state rank

instance (net : KernelRing α) (state : RingState α) (rank : ℕ) :
    Decidable (RankFinished net state rank) :=
  inferInstanceAs (Decidable (_ ∧ _))

/-- The label only refreshes a cached counter. -/
def isPoll : RingLabel → Bool
  | .block _ .pollTail | .block _ .pollHead => true
  | _ => false

/-! ## Streams in logical time -/

theorem pairwise_outgoing {entries : List (Entry α)} (timed : Timed entries) :
    (outgoing entries).Pairwise fun earlier later => earlier.1 < later.1 := by
  unfold outgoing
  rw [List.pairwise_flatMap]
  constructor
  · intro entry _
    split <;> simp
  · refine timed.imp fun {earlier later} smaller left leftIn right rightIn => ?_
    split at leftIn <;> split at rightIn <;> simp_all

/-- Distinct natural times grow by at least one per place. -/
theorem time_add_le_of_pairwise {β : Type*} {slices : List (ℕ × β)}
    (sorted : slices.Pairwise fun earlier later => earlier.1 < later.1) {first gap : ℕ}
    {early late : ℕ × β} (earlyAt : slices[first]? = some early)
    (lateAt : slices[first + gap]? = some late) : early.1 + gap ≤ late.1 := by
  induction gap generalizing late with
  | zero =>
      rw [Nat.add_zero, earlyAt] at lateAt
      obtain rfl := Option.some.inj lateAt
      exact le_rfl
  | succ gap ih =>
      obtain ⟨inside, rfl⟩ := List.getElem?_eq_some_iff.mp lateAt
      have between : slices[first + gap]? = some slices[first + gap] :=
        List.getElem?_eq_getElem (by omega)
      have grown := ih between
      have next := List.pairwise_iff_getElem.mp sorted (first + gap) (first + (gap + 1))
        (by omega) inside (by omega)
      omega

/-- A slice of the stream that is not done yet belongs to an entry that is not done yet. -/
theorem exists_sender {entries : List (Entry α)} {done rest : List (Entry α)}
    (split : entries = done ++ rest) {index : ℕ} (undone : (outgoing done).length ≤ index)
    {slice : ℕ × ℕ × (ℕ → α)} (found : (outgoing entries)[index]? = some slice) :
    ∃ entry ∈ rest, entry.time + 2 = slice.1 := by
  rw [split, outgoing_append, List.getElem?_append_right undone] at found
  obtain ⟨entry, member, -, rfl⟩ := mem_outgoing (List.mem_of_getElem? found)
  exact ⟨entry, member, rfl⟩

theorem exists_receiver {entries : List (Entry α)} {done rest : List (Entry α)}
    (split : entries = done ++ rest) {index : ℕ} (undone : (incoming done).length ≤ index)
    {slice : ℕ × ℕ × (ℕ → α)} (found : (incoming entries)[index]? = some slice) :
    ∃ entry ∈ rest, entry.time = slice.1 := by
  rw [split, incoming_append, List.getElem?_append_right undone] at found
  obtain ⟨entry, member, -, rfl⟩ := mem_incoming (List.mem_of_getElem? found)
  exact ⟨entry, member, rfl⟩

/-! ## Waiting for something older -/

/-- A live block with its next entry. -/
structure NextEntry (net : KernelRing α) (base : BlockId → ℕ) (state : RingState α)
    (id : BlockId) (entry : Entry α) : Prop where
  rank : id.1 < net.kRanks
  channel : id.2 < net.kChannels
  live : (state.block id).live = true
  tracked : ∃ done later, Tracked net base state id done (entry :: later)

/-- No block and no rank can go on. -/
def Stuck (net : KernelRing α) (state : RingState α) : Prop :=
  ∀ rank < net.kRanks, ¬ RankEnabled net state rank

theorem Stuck.block (stuck : Stuck net state) {id : BlockId} (id_rank : id.1 < net.kRanks)
    (id_channel : id.2 < net.kChannels) : ¬ BlockEnabled net state id :=
  fun enabled => stuck id.1 id_rank (.inr ⟨id.2, id_channel, enabled⟩)

/-- In a stuck ring every live block has a next entry. -/
theorem Stuck.exists_next (stuck : Stuck net state) (tracked : AllTracked net base state)
    {id : BlockId} (id_rank : id.1 < net.kRanks) (id_channel : id.2 < net.kChannels)
    (live : (state.block id).live = true) :
    ∃ entry, NextEntry net base state id entry := by
  obtain ⟨done, pending, position⟩ := tracked id id_rank id_channel
  cases pending with
  | nil =>
      have empty : (state.block id).ops = [] := by simpa using position.ops.symm
      refine absurd ⟨live, fun op rest queue => ?_⟩ (stuck.block id_rank id_channel)
      simp [empty] at queue
  | cons entry later => exact ⟨entry, id_rank, id_channel, live, done, later, position⟩

/-- In a stuck ring, any entry that is left in some plan is preceded by the next entry of a live
block. -/
theorem Stuck.exists_next_le (stuck : Stuck net state) (control : Control net state)
    (tracked : AllTracked net base state) {id : BlockId} (id_rank : id.1 < net.kRanks)
    (id_channel : id.2 < net.kChannels) {done pending : List (Entry α)}
    (position : Tracked net base state id done pending) {entry : Entry α}
    (left : entry ∈ pending ++ net.future id (state.started id.1)) :
    ∃ other next, NextEntry net base state other next ∧ next.time ≤ entry.time := by
  rcases List.mem_append.mp left with left | left
  · cases pending with
    | nil => simp at left
    | cons next later =>
        have live : (state.block id).live = true := by
          by_contra dead
          have empty := ((control id id_rank id_channel).returned (by simpa using dead)).1
          simp [← position.ops] at empty
        refine ⟨id, next, ⟨id_rank, id_channel, live, done, later, position⟩, ?_⟩
        rcases List.mem_cons.mp left with rfl | left
        · exact le_rfl
        · have timed : Timed (net.wholePlan id) := timed_wholePlan id
          unfold Timed at timed
          rw [position.whole] at timed
          have inner := (List.pairwise_append.mp (List.pairwise_append.mp timed).2.1).1
          exact ((List.pairwise_cons.mp inner).1 entry left).le
  · -- The entry belongs to a launch the rank has not started, so one of its blocks is live.
    have late : net.clock (state.started id.1) ≤ entry.time := le_time_planFrom left
    have more : state.started id.1 < net.launches.length := by
      by_contra none
      unfold future at left
      rw [List.drop_eq_nil_of_le (by omega)] at left
      simp [planFrom] at left
    have busy : ¬ net.idle state id.1 := fun idle => stuck id.1 id_rank (.inl ⟨idle, more⟩)
    unfold idle at busy
    push Not at busy
    obtain ⟨channel, channel_lt, live⟩ := busy
    obtain ⟨next, found⟩ : ∃ next, NextEntry net base state (id.1, channel) next :=
      stuck.exists_next tracked id_rank channel_lt (by simpa using live)
    refine ⟨(id.1, channel), next, found, ?_⟩
    obtain ⟨done', later', position'⟩ := found.tracked
    have soon := position'.soon next List.mem_cons_self
    exact le_of_lt (lt_of_lt_of_le soon late)

/-- A block that waits for data waits for an older entry of its predecessor. -/
theorem exists_older_of_waits_recv (two : 2 ≤ net.kRanks) (control : Control net state)
    {id : BlockId} (id_rank : id.1 < net.kRanks) (id_channel : id.2 < net.kChannels)
    {done later donePred pendingPred : List (Entry α)} {entry : Entry α}
    (position : Tracked net base state id done (entry :: later))
    (positionPred : Tracked net base state (net.pred id) donePred pendingPred)
    (recvs : entry.op.prim.recvs = true)
    (waits : state.tail (net.pred id) < (state.block id).recvStep + kSliceSteps) :
    ∃ older ∈ pendingPred ++ net.future (net.pred id) (state.started (net.pred id).1),
      older.time < entry.time := by
  have tail := (control (net.pred id) (pred_lt id_rank) id_channel).tail
  have undone : (outgoing donePred).length ≤ (incoming done).length := by
    rw [tail, positionPred.sendStep, position.recvStep] at waits
    simp only [kSliceSteps] at waits
    omega
  have streams := outgoing_wholePlan (pred_lt id_rank) two
  rw [succ_pred id_rank] at streams
  have expected := position.next_incoming recvs
  rw [← streams] at expected
  obtain ⟨older, member, time⟩ := exists_sender positionPred.whole undone expected
  refine ⟨older, member, ?_⟩
  simp only at time
  omega

/-- A block that waits for credit waits for an older entry of its successor. -/
theorem exists_older_of_waits_send (two : 2 ≤ net.kRanks) (control : Control net state)
    {id : BlockId} (id_rank : id.1 < net.kRanks) (id_channel : id.2 < net.kChannels)
    {done later doneSucc pendingSucc : List (Entry α)} {entry : Entry α}
    (position : Tracked net base state id done (entry :: later))
    (positionSucc : Tracked net base state (net.succ id) doneSucc pendingSucc)
    (sends : entry.op.prim.sends = true)
    (waits : state.head id + kFifoSteps < (state.block id).sendStep + kSliceSteps) :
    ∃ older ∈ pendingSucc ++ net.future (net.succ id) (state.started (net.succ id).1),
      older.time < entry.time := by
  have head := (control (net.succ id) (succ_lt id_rank) id_channel).head
  rw [pred_succ id_rank, positionSucc.recvStep, pred_succ id_rank] at head
  obtain ⟨gap, full⟩ : ∃ gap, (outgoing done).length = (incoming doneSucc).length + (4 + gap) := by
    rw [head, position.sendStep] at waits
    simp only [kSliceSteps, kFifoSteps] at waits
    exact ⟨(outgoing done).length - (incoming doneSucc).length - 4, by omega⟩
  have produced := position.next_outgoing sends
  have streams := outgoing_wholePlan id_rank two
  obtain ⟨inside, -⟩ := List.getElem?_eq_some_iff.mp produced
  obtain ⟨slice, unread⟩ : ∃ slice,
      (outgoing (net.wholePlan id))[(incoming doneSucc).length]? = some slice :=
    ⟨_, List.getElem?_eq_getElem (by omega)⟩
  rw [full] at produced
  have spread := time_add_le_of_pairwise (pairwise_outgoing (timed_wholePlan id)) unread produced
  rw [streams] at unread
  obtain ⟨older, member, time⟩ := exists_receiver positionSucc.whole le_rfl unread
  refine ⟨older, member, ?_⟩
  simp only at spread
  omega

/-- A stuck ring has no live block: the next entry of a live block is never the oldest. -/
theorem Stuck.no_next (stuck : Stuck net state) (two : 2 ≤ net.kRanks)
    (control : Control net state) (tracked : AllTracked net base state) (time : ℕ)
    (id : BlockId) (entry : Entry α) (next : NextEntry net base state id entry)
    (at_time : entry.time = time) : False := by
  induction time using Nat.strong_induction_on generalizing id entry with
  | _ time ih =>
      obtain ⟨id_rank, id_channel, live, done, later, position⟩ := next
      have queue : (state.block id).ops = entry.op :: later.map Entry.op := by
        simpa using position.ops.symm
      have older : ∃ other next, NextEntry net base state other next ∧
          next.time < entry.time := by
        by_contra none
        apply stuck.block id_rank id_channel
        refine ⟨live, fun op rest found => ?_⟩
        obtain ⟨rfl, -⟩ : entry.op = op ∧ later.map Entry.op = rest := by
          simpa [queue] using found
        constructor
        · intro recvs _
          by_contra waits
          obtain ⟨donePred, pendingPred, positionPred⟩ :=
            tracked (net.pred id) (pred_lt id_rank) id_channel
          obtain ⟨older, left, earlier⟩ := exists_older_of_waits_recv two control id_rank
            id_channel position positionPred recvs (by omega)
          obtain ⟨other, next, found, before⟩ := stuck.exists_next_le control tracked
            (pred_lt id_rank) id_channel positionPred left
          exact none ⟨other, next, found, by omega⟩
        · intro sends _
          by_contra waits
          obtain ⟨doneSucc, pendingSucc, positionSucc⟩ :=
            tracked (net.succ id) (succ_lt id_rank) id_channel
          obtain ⟨older, left, earlier⟩ := exists_older_of_waits_send two control id_rank
            id_channel position positionSucc sends (by omega)
          obtain ⟨other, next, found, before⟩ := stuck.exists_next_le control tracked
            (succ_lt id_rank) id_channel positionSucc left
          exact none ⟨other, next, found, by omega⟩
      obtain ⟨other, next, found, before⟩ := older
      exact ih next.time (by omega) other next found rfl

/-! ## An enabled rank really steps -/

/-- After at most one refresh of a cached counter the rank takes a step that is no refresh. -/
def Advances (net : KernelRing α) (state : RingState α) : Prop :=
  ∃ polls polled label after, polls.length ≤ 1 ∧ (∀ poll ∈ polls, isPoll poll = true) ∧
    StepSystem.exec net.step state polls = some polled ∧ isPoll label = false ∧
    net.step polled label = some after

theorem guard_waitRecv {launch : Launch α} {block : Block} {op : SliceOp} :
    guard launch block op .waitRecv = true ↔ op.prim.recvs = true ∧
      block.slice.waitedRecv = false ∧ block.recvStep + kSliceSteps ≤ block.recvTailCache := by
  simp [guard, and_assoc]

theorem guard_waitSend {launch : Launch α} {block : Block} {op : SliceOp} :
    guard launch block op .waitSend = true ↔ op.prim.sends = true ∧
      block.slice.waitedSend = false ∧
        block.sendStep + kSliceSteps ≤ block.sendHeadCache + kFifoSteps := by
  simp [guard, and_assoc]

theorem step_of_guard {id : BlockId} (id_rank : id.1 < net.kRanks)
    (id_channel : id.2 < net.kChannels) (live : (state.block id).live = true)
    {launch : Launch α} (found : net.launches[(state.block id).launch]? = some launch)
    {op : SliceOp} {rest : List SliceOp} (queue : (state.block id).ops = op :: rest)
    {action : Action} (enabled : guard launch (state.block id) op action = true) :
    net.step state (.block id action) =
      some (net.perform launch state id (state.block id) op rest action) := by
  simp only [step, id_rank, id_channel, live, found, queue, enabled, and_self, if_true]

theorem advances_of_guard {id : BlockId} (id_rank : id.1 < net.kRanks)
    (id_channel : id.2 < net.kChannels) (live : (state.block id).live = true)
    {launch : Launch α} (found : net.launches[(state.block id).launch]? = some launch)
    {op : SliceOp} {rest : List SliceOp} (queue : (state.block id).ops = op :: rest)
    (action : Action) (enabled : guard launch (state.block id) op action = true)
    (acts : isPoll (.block id action) = false) : Advances net state :=
  ⟨[], state, .block id action, _, by simp, by simp, rfl, acts,
    step_of_guard id_rank id_channel live found queue enabled⟩

/-- A refresh that brings in the awaited counter lets the wait end. -/
theorem advances_of_poll {id : BlockId} (id_rank : id.1 < net.kRanks)
    (id_channel : id.2 < net.kChannels) (live : (state.block id).live = true)
    {launch : Launch α} (found : net.launches[(state.block id).launch]? = some launch)
    {op : SliceOp} {rest : List SliceOp} (queue : (state.block id).ops = op :: rest)
    (poll wait : Action) (polls : isPoll (.block id poll) = true)
    (acts : isPoll (.block id wait) = false)
    (enabled : guard launch (state.block id) op poll = true)
    (ends : guard launch (net.act state id (state.block id) op rest poll) op wait = true) :
    Advances net state := by
  have polled := step_of_guard id_rank id_channel live found queue enabled
  have block : (net.perform launch state id (state.block id) op rest poll).block id =
      net.act state id (state.block id) op rest poll := by
    rw [perform_block, Function.update_self]
  have kept : (net.act state id (state.block id) op rest poll).ops = op :: rest := by
    cases poll <;> simp [isPoll, act, queue] at polls ⊢
  have live' : ((net.perform launch state id (state.block id) op rest poll).block id).live =
      true := by
    rw [block, act_live, live]
  have found' : net.launches[((net.perform launch state id (state.block id) op rest poll).block
      id).launch]? = some launch := by
    rw [block, act_launch, found]
  have waited := step_of_guard id_rank id_channel live' found' (block.symm ▸ kept)
    (block.symm ▸ ends)
  exact ⟨[.block id poll], _, .block id wait, _, by simp, by simpa using polls,
    by simp [StepSystem.exec, polled], acts, waited⟩

theorem BlockEnabled.advances {id : BlockId} (enabled : BlockEnabled net state id)
    (id_rank : id.1 < net.kRanks) (id_channel : id.2 < net.kChannels) {launch : Launch α}
    (found : net.launches[(state.block id).launch]? = some launch) : Advances net state := by
  obtain ⟨live, waits⟩ := enabled
  cases queue : (state.block id).ops with
  | nil =>
      have returns : net.step state (.block id .ret) = some
          { state with block := Function.update state.block id (retire (state.block id)) } := by
        simp only [step, id_rank, id_channel, live, found, queue, and_self, if_true]
      exact ⟨[], state, .block id .ret, _, by simp, by simp, rfl, rfl, returns⟩
  | cons op rest =>
      obtain ⟨data, credit⟩ := waits op rest queue
      have act := advances_of_guard id_rank id_channel live found queue
      by_cases waitsRecv : op.prim.recvs = true ∧ (state.block id).slice.waitedRecv = false
      · have arrived := data waitsRecv.1 waitsRecv.2
        by_cases cached : (state.block id).recvTailCache <
            (state.block id).recvStep + kSliceSteps
        · refine advances_of_poll id_rank id_channel live found queue .pollTail .waitRecv rfl rfl
            ?_ ?_
          · simp [guard, waitsRecv, cached]
          · exact guard_waitRecv.mpr ⟨waitsRecv.1, waitsRecv.2, arrived⟩
        · exact act .waitRecv (guard_waitRecv.mpr ⟨waitsRecv.1, waitsRecv.2, not_lt.mp cached⟩) rfl
      by_cases waitsSend : op.prim.sends = true ∧ (state.block id).slice.waitedSend = false
      · have room := credit waitsSend.1 waitsSend.2
        by_cases cached : (state.block id).sendHeadCache + kFifoSteps <
            (state.block id).sendStep + kSliceSteps
        · refine advances_of_poll id_rank id_channel live found queue .pollHead .waitSend rfl rfl
            ?_ ?_
          · simp [guard, waitsSend, cached]
          · exact guard_waitSend.mpr ⟨waitsSend.1, waitsSend.2, room⟩
        · exact act .waitSend (guard_waitSend.mpr ⟨waitsSend.1, waitsSend.2, not_lt.mp cached⟩) rfl
      -- Nothing is awaited: the first pass, the second one, the two counters, the next slice.
      have recvDone : (!op.prim.recvs || (state.block id).slice.waitedRecv) = true := by
        cases recvs : op.prim.recvs <;> simp_all
      have sendDone : (!op.prim.sends || (state.block id).slice.waitedSend) = true := by
        cases sends : op.prim.sends <;> simp_all
      cases moved : (state.block id).slice.moved with
      | false => exact act .move (by simp only [guard, recvDone, sendDone, moved]; rfl) rfl
      | true =>
          by_cases reducing : twoPass launch op = true ∧ (state.block id).slice.reduced = false
          · exact act .reduce (by simp [guard, moved, reducing]) rfl
          by_cases heading : op.prim.recvs = true ∧ (state.block id).slice.postedHead = false
          · exact act .postHead (by simp [guard, moved, heading]) rfl
          have reduceDone : (!twoPass launch op || (state.block id).slice.reduced) = true := by
            cases passes : twoPass launch op <;> simp_all
          have headDone : (!op.prim.recvs || (state.block id).slice.postedHead) = true := by
            cases recvs : op.prim.recvs <;> simp_all
          by_cases tailing : op.prim.sends = true ∧ (state.block id).slice.postedTail = false
          · refine act .postTail ?_ rfl
            have released : (!(early launch op && op.prim.recvs) ||
                (state.block id).slice.postedHead) = true := by
              cases recvs : op.prim.recvs <;> simp_all
            simp only [guard, moved, tailing, reduceDone, released]
            rfl
          have tailDone : (!op.prim.sends || (state.block id).slice.postedTail) = true := by
            cases sends : op.prim.sends <;> simp_all
          exact act .next (by simp only [guard, moved, reduceDone, headDone, tailDone]; rfl) rfl

theorem started_le_length {fifo : BlockId → ℕ → α} {output : ℕ × ℕ → ℕ → α}
    (reach : StepSystem.Reachable net.step (net.initial base fifo output) state) (rank : ℕ) :
    state.started rank ≤ net.launches.length := by
  refine StepSystem.Reachable.invariant
    (fun state => ∀ rank, state.started rank ≤ net.launches.length) ?_ ?_ reach rank
  · intro before label after bound stepped other
    cases label with
    | launch rank =>
        obtain ⟨launch, found, -, -, rfl⟩ := step_launch stepped
        obtain ⟨inside, -⟩ := List.getElem?_eq_some_iff.mp found
        by_cases same : other = rank
        · subst same
          simpa using inside
        · simpa [same] using bound other
    | block id action =>
        obtain ⟨-, -, -, launch, -, ⟨-, -, rfl⟩ | ⟨op, rest, -, -, rfl⟩⟩ := step_block stepped
        · exact bound other
        · rw [perform_started]
          exact bound other
  · intro rank
    exact Nat.zero_le _

/-- In every reachable state in which some rank has launches left, some rank is enabled, and the
ring steps on without waiting. -/
theorem exists_enabled_of_unfinished (net : KernelRing α) (two : 2 ≤ net.kRanks)
    (base : BlockId → ℕ) (fifo : BlockId → ℕ → α) (output : ℕ × ℕ → ℕ → α)
    (state : RingState α)
    (reach : StepSystem.Reachable net.step (net.initial base fifo output) state)
    (unfinished : ∃ rank < net.kRanks, ¬ RankFinished net state rank) :
    (∃ rank < net.kRanks, RankEnabled net state rank) ∧ Advances net state := by
  obtain ⟨control, tracked⟩ := tracked_reachable two reach
  have enabled : ∃ rank < net.kRanks, RankEnabled net state rank := by
    by_contra none
    have stuck : Stuck net state := fun rank rank_lt enabled => none ⟨rank, rank_lt, enabled⟩
    have dead (id : BlockId) (id_rank : id.1 < net.kRanks) (id_channel : id.2 < net.kChannels) :
        (state.block id).live = false := by
      by_contra live
      obtain ⟨entry, next⟩ := stuck.exists_next tracked id_rank id_channel (by simpa using live)
      exact stuck.no_next two control tracked entry.time id entry next rfl
    obtain ⟨rank, rank_lt, more⟩ := unfinished
    have idle : net.idle state rank := fun channel channel_lt =>
      dead (rank, channel) rank_lt channel_lt
    have left : state.started rank ≠ net.launches.length := fun all => more ⟨all, idle⟩
    have bound := started_le_length reach rank
    exact stuck rank rank_lt (.inl ⟨idle, by omega⟩)
  refine ⟨enabled, ?_⟩
  obtain ⟨rank, rank_lt, starts | ⟨channel, channel_lt, goesOn⟩⟩ := enabled
  · obtain ⟨idle, more⟩ := starts
    have launches : (net.step state (.launch rank)).isSome = true := by
      simp only [step, List.getElem?_eq_getElem more, rank_lt, idle, and_self, if_true]
      rfl
    obtain ⟨after, stepped⟩ := Option.isSome_iff_exists.mp launches
    exact ⟨[], state, .launch rank, after, by simp, by simp, rfl, rfl, stepped⟩
  · obtain ⟨done, pending, position⟩ := tracked (rank, channel) rank_lt channel_lt
    obtain ⟨launch, found⟩ := position.running goesOn.1
    exact goesOn.advances rank_lt channel_lt found

/-- AllGather in two chunks of two slices on three ranks and one channel. -/
def crowdedRing : KernelRing ℕ where
  kRanks := 3
  kChannels := 1
  launches :=
    [{ kind := .allGather, dtype := .float, redop := .sum, count := 2097152,
       input := fun rank _ => rank }]
  apply := fun _ left right => left + right
  scaleAvg := fun value => value

/-- Rank 2 only sends its own slices, ranks 0 and 1 go on as far as they can. -/
def crowdedLabels : List RingLabel :=
  let act := fun rank => List.map (RingLabel.block (rank, 0))
  let send := [.waitSend, .move, .postTail, .next]
  let forward := [.waitRecv, .waitSend, .move, .postHead, .postTail, .next]
  let recv := [.waitRecv, .move, .postHead, .next]
  let pass := [.move, .next] ++ send ++ send ++ .pollTail :: forward ++ forward
  [.launch 0, .launch 1, .launch 2] ++ act 2 ([.move, .next] ++ send ++ send) ++ act 0 pass ++
    act 1 (pass ++ recv ++ recv ++ [.move, .next])

/-- Rank 0 waits for data and rank 1 for credit, so rank 2 can go on. -/
theorem exists_enabled_of_unfinished_crowded : ∃ state,
    StepSystem.exec crowdedRing.step
        (crowdedRing.initial (fun _ => 0) (fun _ _ => 0) fun _ _ => 0) crowdedLabels = some state ∧
      ¬ RankEnabled crowdedRing state 0 ∧ ¬ RankEnabled crowdedRing state 1 ∧
        RankEnabled crowdedRing state 2 := by
  have reached : (StepSystem.exec crowdedRing.step
      (crowdedRing.initial (fun _ => 0) (fun _ _ => 0) fun _ _ => 0) crowdedLabels).any
      (fun state => decide (¬ RankFinished crowdedRing state 0 ∧ ¬ RankEnabled crowdedRing state 0 ∧
        ¬ RankEnabled crowdedRing state 1)) = true := by
    decide +kernel
  obtain ⟨state, execution, seen⟩ := (Option.any_eq_true _ _).mp reached
  obtain ⟨unfinished, for_data, for_credit⟩ := of_decide_eq_true seen
  obtain ⟨rank, rank_lt, enabled⟩ := (exists_enabled_of_unfinished crowdedRing (by decide)
    (fun _ => 0) (fun _ _ => 0) (fun _ _ => 0) state ⟨_, execution⟩
    ⟨0, by decide, unfinished⟩).1
  refine ⟨state, execution, for_data, for_credit, ?_⟩
  obtain rfl | rfl | rfl : rank = 0 ∨ rank = 1 ∨ rank = 2 := by
    have bound : rank < 3 := rank_lt
    omega
  · exact absurd enabled for_data
  · exact absurd enabled for_credit
  · exact enabled

end KernelRing
end NanoNccl
