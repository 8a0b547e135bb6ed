import Mathlib.Tactic
import NanoNccl.Kernel.Ring

/-!
# Counters and waits of the running ring

What one step of the ring can do, and the invariant that ties the published counters of every
edge to the local steps of its two blocks. It holds for every list of launches and every
interleaving, with no assumption on the schedules.
-/

namespace NanoNccl
namespace KernelRing

variable {α : Type*} {net : KernelRing α} {state state' : RingState α}

/-! ## What a step does -/

theorem step_launch {rank : ℕ} (stepped : net.step state (.launch rank) = some state') :
    ∃ launch, net.launches[state.started rank]? = some launch ∧ rank < net.kRanks ∧
      net.idle state rank ∧
      state' =
        { state with
          started := Function.update state.started rank (state.started rank + 1)
          block := fun id =>
            if id.1 = rank ∧ id.2 < net.kChannels then
              net.enter launch (state.started rank) id (state.block id)
            else state.block id } := by
  unfold step at stepped
  cases found : net.launches[state.started rank]? with
  | none => simp [found] at stepped
  | some launch =>
      simp only [found] at stepped
      split at stepped
      · rename_i allowed
        exact ⟨launch, rfl, allowed.1, allowed.2, (Option.some.inj stepped).symm⟩
      · cases stepped

theorem step_block {id : BlockId} {action : Action}
    (stepped : net.step state (.block id action) = some state') :
    id.1 < net.kRanks ∧ id.2 < net.kChannels ∧ (state.block id).live = true ∧
      ∃ launch, net.launches[(state.block id).launch]? = some launch ∧
        (((state.block id).ops = [] ∧ action = .ret ∧
            state' = { state with
              block := Function.update state.block id (retire (state.block id)) }) ∨
          ∃ op rest, (state.block id).ops = op :: rest ∧
            guard launch (state.block id) op action = true ∧
            state' = net.perform launch state id (state.block id) op rest action) := by
  simp only [step] at stepped
  split at stepped
  · rename_i allowed
    refine ⟨allowed.1, allowed.2.1, allowed.2.2, ?_⟩
    cases found : net.launches[(state.block id).launch]? with
    | none => simp [found] at stepped
    | some launch =>
        refine ⟨launch, rfl, ?_⟩
        cases queue : (state.block id).ops with
        | nil =>
            simp only [found, queue] at stepped
            split at stepped
            · rename_i returned
              exact .inl ⟨rfl, returned, (Option.some.inj stepped).symm⟩
            · cases stepped
        | cons op rest =>
            simp only [found, queue] at stepped
            split at stepped
            · rename_i enabled
              exact .inr ⟨op, rest, rfl, enabled, (Option.some.inj stepped).symm⟩
            · cases stepped
  · cases stepped

/-! ## Neighbours -/

theorem pred_injective {left right : BlockId} (left_lt : left.1 < net.kRanks)
    (right_lt : right.1 < net.kRanks) (same : net.pred left = net.pred right) : left = right := by
  simp only [pred, Prod.mk.injEq] at same
  obtain ⟨ranks, channels⟩ := same
  apply Prod.ext _ channels
  have shifted : (left.1 + (net.kRanks - 1)) % net.kRanks =
      (right.1 + (net.kRanks - 1)) % net.kRanks := by
    rwa [← Nat.add_sub_assoc (by omega), ← Nat.add_sub_assoc (by omega)]
  have congruent : left.1 ≡ right.1 [MOD net.kRanks] :=
    Nat.ModEq.add_right_cancel' (net.kRanks - 1) shifted
  exact Nat.ModEq.eq_of_lt_of_lt congruent left_lt right_lt

theorem pred_succ {id : BlockId} (id_lt : id.1 < net.kRanks) : net.pred (net.succ id) = id := by
  refine Prod.ext ?_ rfl
  simp only [pred, succ]
  have shifted : (id.1 + 1) % net.kRanks + net.kRanks - 1 =
      (id.1 + 1) % net.kRanks + (net.kRanks - 1) := by omega
  rw [shifted, Nat.mod_add_mod, show id.1 + 1 + (net.kRanks - 1) = id.1 + net.kRanks by omega,
    Nat.add_mod_right, Nat.mod_eq_of_lt id_lt]

theorem succ_pred {id : BlockId} (id_lt : id.1 < net.kRanks) : net.succ (net.pred id) = id := by
  refine Prod.ext ?_ rfl
  simp only [pred, succ]
  rw [Nat.mod_add_mod, show id.1 + net.kRanks - 1 + 1 = id.1 + net.kRanks by omega,
    Nat.add_mod_right, Nat.mod_eq_of_lt id_lt]

theorem pred_lt {id : BlockId} (id_lt : id.1 < net.kRanks) : (net.pred id).1 < net.kRanks :=
  Nat.mod_lt _ (Nat.zero_lt_of_lt id_lt)

theorem succ_lt {id : BlockId} (id_lt : id.1 < net.kRanks) : (net.succ id).1 < net.kRanks :=
  Nat.mod_lt _ (Nat.zero_lt_of_lt id_lt)

/-! ## The control invariant -/

/-- The flags of a slice operation follow the order its barriers impose. -/
structure SliceOk (launch : Launch α) (op : SliceOp) (slice : SliceState) : Prop where
  moved_recv : slice.moved = true → op.prim.recvs = true → slice.waitedRecv = true
  moved_send : slice.moved = true → op.prim.sends = true → slice.waitedSend = true
  reduced : slice.reduced = true → slice.moved = true ∧ twoPass launch op = true
  postedHead : slice.postedHead = true → slice.moved = true ∧ op.prim.recvs = true
  postedTail : slice.postedTail = true → slice.moved = true ∧ op.prim.sends = true ∧
    (twoPass launch op = true → slice.reduced = true)

theorem SliceOk.fresh (launch : Launch α) (op : SliceOp) : SliceOk launch op {} where
  moved_recv := by simp
  moved_send := by simp
  reduced := by simp
  postedHead := by simp
  postedTail := by simp

/-- Before the first pass of a slice nothing is published. -/
theorem SliceOk.unmoved {launch : Launch α} {op : SliceOp} {slice : SliceState}
    (ok : SliceOk launch op slice) (unmoved : slice.moved = false) :
    slice.reduced = false ∧ slice.postedHead = false ∧ slice.postedTail = false := by
  have before : ∀ flag : Bool, (flag = true → slice.moved = true) → flag = false := by
    intro flag behind
    cases flag with
    | false => rfl
    | true => exact absurd (behind rfl) (by simp [unmoved])
  exact ⟨before _ fun flag => (ok.reduced flag).1, before _ fun flag => (ok.postedHead flag).1,
    before _ fun flag => (ok.postedTail flag).1⟩

/-- A slice of two passes is published behind the second one. -/
theorem SliceOk.unreduced {launch : Launch α} {op : SliceOp} {slice : SliceState}
    (ok : SliceOk launch op slice) (passes : twoPass launch op = true)
    (unreduced : slice.reduced = false) : slice.postedTail = false := by
  cases posted : slice.postedTail with
  | false => rfl
  | true => exact absurd ((ok.postedTail posted).2.2 passes) (by simp [unreduced])

/-- Steps ahead of the local counter already published by the current slice operation. -/
def ahead (posted : Bool) : ℕ := if posted then kSliceSteps else 0

@[simp] theorem ahead_true : ahead true = kSliceSteps := rfl

@[simp] theorem ahead_false : ahead false = 0 := rfl

/-- Counters, caches and flags of one block. -/
structure BlockOk (net : KernelRing α) (state : RingState α) (id : BlockId) : Prop where
  tail : state.tail id =
    (state.block id).sendStep + ahead (state.block id).slice.postedTail
  head : state.head (net.pred id) =
    (state.block id).recvStep + ahead (state.block id).slice.postedHead
  received : state.head (net.pred id) ≤ state.tail (net.pred id)
  empty : (state.block id).ops = [] → (state.block id).slice = {}
  returned : (state.block id).live = false → (state.block id).ops = [] ∧
    (state.block id).sendStep = (state.block id).sendBase ∧
    (state.block id).recvStep = (state.block id).recvBase
  recvCache : (state.block id).live = true →
    (state.block id).recvTailCache ≤ state.tail (net.pred id)
  waitedRecv : (state.block id).slice.waitedRecv = true →
    (state.block id).recvStep + kSliceSteps ≤ (state.block id).recvTailCache
  waitedSend : (state.block id).slice.waitedSend = true →
    (state.block id).sendStep + kSliceSteps ≤ (state.block id).sendHeadCache + kFifoSteps
  slice : ∀ launch op rest, net.launches[(state.block id).launch]? = some launch →
    (state.block id).ops = op :: rest → SliceOk launch op (state.block id).slice

/-- The control invariant of the ring. -/
def Control (net : KernelRing α) (state : RingState α) : Prop :=
  ∀ id : BlockId, id.1 < net.kRanks → id.2 < net.kChannels → BlockOk net state id

theorem control_initial (base : BlockId → ℕ) (fifo : BlockId → ℕ → α)
    (output : ℕ × ℕ → ℕ → α) : Control net (net.initial base fifo output) := by
  intro id _ _
  constructor <;> simp [initial]

/-! ## Effect of an action on the counters -/

section Perform

variable {launch : Launch α} {id other : BlockId} {op : SliceOp} {rest : List SliceOp}
  {action : Action}

@[simp] theorem perform_block (block : Block) :
    (net.perform launch state id block op rest action).block =
      Function.update state.block id (net.act state id block op rest action) := by
  cases action <;> rfl

@[simp] theorem perform_started (block : Block) :
    (net.perform launch state id block op rest action).started = state.started := by
  cases action <;> rfl

theorem perform_tail (block : Block) :
    (net.perform launch state id block op rest action).tail =
      if action = .postTail then
        Function.update state.tail id (block.sendStep + kSliceSteps)
      else state.tail := by
  cases action <;> rfl

theorem perform_head (block : Block) :
    (net.perform launch state id block op rest action).head =
      if action = .postHead then
        Function.update state.head (net.pred id) (block.recvStep + kSliceSteps)
      else state.head := by
  cases action <;> rfl

@[simp] theorem act_launch (block : Block) :
    (net.act state id block op rest action).launch = block.launch := by
  cases action <;> rfl

@[simp] theorem act_live (block : Block) :
    (net.act state id block op rest action).live = block.live := by
  cases action <;> rfl

/-- A block only publishes its own tail. -/
theorem perform_tail_of_ne (block : Block) (distinct : other ≠ id) :
    (net.perform launch state id block op rest action).tail other = state.tail other := by
  rw [perform_tail]
  split
  · exact Function.update_of_ne distinct _ _
  · rfl

/-- A block only publishes the head of the edge it receives from. -/
theorem perform_head_of_ne (block : Block) (distinct : other ≠ net.pred id) :
    (net.perform launch state id block op rest action).head other = state.head other := by
  rw [perform_head]
  split
  · exact Function.update_of_ne distinct _ _
  · rfl

/-- Published tails never decrease. -/
theorem tail_le_perform (ok : BlockOk net state id)
    (enabled : guard launch (state.block id) op action = true) (rest : List SliceOp)
    (edge : BlockId) :
    state.tail edge ≤
      (net.perform launch state id (state.block id) op rest action).tail edge := by
  rw [perform_tail]
  split
  · rename_i posting
    by_cases same : edge = id
    · subst same posting
      have open_slot : (state.block edge).slice.postedTail = false := by
        simp only [guard, Bool.and_eq_true, Bool.not_eq_true'] at enabled
        exact enabled.1.1.2
      rw [Function.update_self, ok.tail, open_slot]
      simp
    · rw [Function.update_of_ne same]
  · exact le_rfl

/-- Published heads never decrease. -/
theorem head_le_perform (ok : BlockOk net state id)
    (enabled : guard launch (state.block id) op action = true) (rest : List SliceOp)
    (edge : BlockId) :
    state.head edge ≤
      (net.perform launch state id (state.block id) op rest action).head edge := by
  rw [perform_head]
  split
  · rename_i posting
    by_cases same : edge = net.pred id
    · subst same posting
      have open_slot : (state.block id).slice.postedHead = false := by
        simp only [guard, Bool.and_eq_true, Bool.not_eq_true'] at enabled
        exact enabled.2
      rw [Function.update_self, ok.head, open_slot]
      simp
    · rw [Function.update_of_ne same]
  · exact le_rfl

/-- The flags stay in order under every action but the last of the slice. -/
theorem SliceOk.act {block : Block} (ok : SliceOk launch op block.slice)
    (enabled : guard launch block op action = true) (stays : action ≠ .next) :
    SliceOk launch op (net.act state id block op rest action).slice := by
  obtain ⟨recvOk, sendOk, reducedOk, headOk, tailOk⟩ := ok
  cases action <;>
    simp only [guard, KernelRing.act, Bool.and_eq_true, Bool.or_eq_true, Bool.not_eq_true',
      reduceCtorEq] at enabled ⊢
  case next => exact absurd rfl stays
  all_goals constructor <;> grind

/-- A slice that ends has published what its primitive publishes. -/
theorem SliceOk.posted_of_next {block : Block} (ok : SliceOk launch op block.slice)
    (enabled : guard launch block op .next = true) :
    block.slice.postedTail = op.prim.sends ∧ block.slice.postedHead = op.prim.recvs := by
  have tail := ok.postedTail
  have head := ok.postedHead
  simp only [guard, Bool.and_eq_true, Bool.or_eq_true, Bool.not_eq_true'] at enabled
  grind

/-- An action keeps the block that takes it in order. -/
theorem BlockOk.perform_self (ok : BlockOk net state id)
    (found : net.launches[(state.block id).launch]? = some launch)
    (queue : (state.block id).ops = op :: rest) (live : (state.block id).live = true)
    (enabled : guard launch (state.block id) op action = true) :
    BlockOk net (net.perform launch state id (state.block id) op rest action) id := by
  have flags := ok.slice launch op rest found queue
  have tails := tail_le_perform ok enabled rest (net.pred id)
  have cache := ok.recvCache live
  have finished (ends : action = .next) :
      (state.block id).slice.postedTail = op.prim.sends ∧
        (state.block id).slice.postedHead = op.prim.recvs :=
    flags.posted_of_next (ends ▸ enabled)
  constructor
  case tail =>
    have published := ok.tail
    rw [perform_tail, perform_block, Function.update_self]
    cases action <;> simp [KernelRing.act, guard, published] at enabled ⊢
    case next =>
      rw [(finished rfl).1]
      cases op.prim.sends <;> simp
  case head =>
    have published := ok.head
    rw [perform_head, perform_block, Function.update_self]
    cases action <;> simp [KernelRing.act, guard, published] at enabled ⊢
    case next =>
      rw [(finished rfl).2]
      cases op.prim.recvs <;> simp
  case received =>
    refine le_trans ?_ tails
    have before := ok.received
    rw [perform_head]
    split
    · rename_i posting
      subst posting
      simp only [guard, Bool.and_eq_true] at enabled
      have waited := ok.waitedRecv (flags.moved_recv enabled.1.2 enabled.1.1)
      rw [Function.update_self]
      omega
    · exact before
  case empty =>
    rw [perform_block, Function.update_self]
    cases action <;> simp [KernelRing.act, queue]
  case returned =>
    rw [perform_block, Function.update_self, act_live, live]
    simp
  case recvCache =>
    intro _
    refine le_trans ?_ tails
    rw [perform_block, Function.update_self]
    cases action <;> simp [KernelRing.act, cache]
  case waitedRecv =>
    have waited := ok.waitedRecv
    rw [perform_block, Function.update_self]
    cases action <;> simp [KernelRing.act, guard] at enabled ⊢ <;> first | exact waited | skip
    case pollTail => simp [enabled.1.2]
    case waitRecv => exact enabled.2
  case waitedSend =>
    have waited := ok.waitedSend
    rw [perform_block, Function.update_self]
    cases action <;> simp [KernelRing.act, guard] at enabled ⊢ <;> first | exact waited | skip
    case pollHead => simp [enabled.1.2]
    case waitSend => exact enabled.2
  case slice =>
    intro launch' op' rest' found' queue'
    rw [perform_block, Function.update_self] at found' queue' ⊢
    rw [act_launch, found] at found'
    obtain rfl := Option.some.inj found'
    by_cases ends : action = .next
    · subst ends
      exact SliceOk.fresh launch op'
    · have same : op' = op := by
        cases action <;> simp_all [KernelRing.act]
      subst same
      exact flags.act enabled ends

/-- An action keeps every other block in order. -/
theorem BlockOk.perform_other (ok : BlockOk net state other) (self : BlockOk net state id)
    (id_lt : id.1 < net.kRanks) (other_lt : other.1 < net.kRanks) (distinct : other ≠ id)
    (enabled : guard launch (state.block id) op action = true) :
    BlockOk net (net.perform launch state id (state.block id) op rest action) other := by
  have tails := tail_le_perform self enabled rest (net.pred other)
  have edges : net.pred other ≠ net.pred id := fun same =>
    distinct (pred_injective other_lt id_lt same)
  obtain ⟨tail, head, received, empty, returned, recvCache, waitedRecv, waitedSend, slice⟩ := ok
  constructor <;>
    simp only [perform_block, Function.update_of_ne distinct,
      perform_tail_of_ne (state.block id) distinct, perform_head_of_ne (state.block id) edges]
  case tail => exact tail
  case head => exact head
  case received => exact received.trans tails
  case empty => exact empty
  case returned => exact returned
  case recvCache => exact fun live => (recvCache live).trans tails
  case waitedRecv => exact waitedRecv
  case waitedSend => exact waitedSend
  case slice => exact slice

end Perform

/-- A returned block keeps its counters. -/
theorem BlockOk.retire {id : BlockId} (ok : BlockOk net state id)
    (finished : (state.block id).ops = []) (other : BlockId) (otherOk : BlockOk net state other) :
    BlockOk net
      { state with block := Function.update state.block id (KernelRing.retire (state.block id)) }
      other := by
  by_cases same : other = id
  · subst same
    obtain ⟨tail, head, received, empty, _, _, waitedRecv, waitedSend, slice⟩ := ok
    constructor <;> simp only [Function.update_self, KernelRing.retire] <;>
      first | assumption | simp_all
  · obtain ⟨tail, head, received, empty, returned, recvCache, waitedRecv, waitedSend, slice⟩ :=
      otherOk
    constructor <;> simp only [Function.update_of_ne same] <;> assumption

/-- A block that enters a kernel keeps its counters. -/
theorem BlockOk.enter {id : BlockId} (ok : BlockOk net state id) (launch : Launch α)
    (index : ℕ) (idle : (state.block id).live = false) {state' : RingState α}
    (tails : state'.tail = state.tail) (heads : state'.head = state.head)
    (entered : state'.block id = net.enter launch index id (state.block id)) :
    BlockOk net state' id := by
  obtain ⟨tail, head, received, empty, returned, _, waitedRecv, waitedSend, slice⟩ := ok
  obtain ⟨finished, sendStep, recvStep⟩ := returned idle
  have fresh := empty finished
  constructor <;> simp only [entered, tails, heads, KernelRing.enter]
  case received => exact received
  all_goals split <;> simp_all [SliceOk.fresh]

/-- The control invariant is preserved by every step. -/
theorem control_step {label : RingLabel} (control : Control net state)
    (stepped : net.step state label = some state') : Control net state' := by
  cases label with
  | launch rank =>
      obtain ⟨launch, -, rank_lt, idle, rfl⟩ := step_launch stepped
      intro id id_rank id_channel
      by_cases entering : id.1 = rank
      · refine BlockOk.enter (control id id_rank id_channel) launch (state.started rank) ?_ rfl rfl
          (if_pos ⟨entering, id_channel⟩)
        have := idle id.2 id_channel
        rwa [← entering] at this
      · obtain ⟨tail, head, received, empty, returned, recvCache, waitedRecv, waitedSend, slice⟩ :=
          control id id_rank id_channel
        constructor <;> simp only [entering, false_and, if_false] <;> assumption
  | block id action =>
      obtain ⟨id_rank, id_channel, live, launch, found, finished | continued⟩ :=
        step_block stepped
      · obtain ⟨finished, -, rfl⟩ := finished
        intro other other_rank other_channel
        exact (control id id_rank id_channel).retire finished other
          (control other other_rank other_channel)
      · obtain ⟨op, rest, queue, enabled, rfl⟩ := continued
        intro other other_rank other_channel
        have self := control id id_rank id_channel
        by_cases same : other = id
        · subst same
          exact self.perform_self found queue live enabled
        · exact (control other other_rank other_channel).perform_other self id_rank other_rank
            same enabled

end KernelRing
end NanoNccl
