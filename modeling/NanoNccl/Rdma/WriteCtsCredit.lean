import NanoNccl.Rdma.WriteCtsInvariant

/-!
# Credit over WRITE+CTS

Two orders between adjacent statements decide what happens to a credit. The send proxy posts a
WRITE before it clears the CTS slot, so the CTS of the next round may arrive in between and be
cleared with it. The receive proxy posts the CTS of newly released slots before their receive work
requests, except in `prepare`.
-/

namespace NanoNccl.Rdma.WriteCts

open StepSystem

variable {edge : Edge} {state next : State}

/-! ### Moves that leave a side alone -/

theorem drainRecv_frame (state : State) (left : ℕ) (wc : RecvWc) :
    (drainRecv edge state left wc).cts = state.cts ∧
      (drainRecv edge state left wc).ctsDelivered = state.ctsDelivered ∧
      (drainRecv edge state left wc).writes = state.writes ∧
      (drainRecv edge state left wc).sender = state.sender := by
  cases wc with
  | cts =>
      simp only [drainRecv]
      split <;> exact ⟨rfl, rfl, rfl, rfl⟩
  | imm =>
      simp only [drainRecv]
      split_ifs <;> exact ⟨rfl, rfl, rfl, rfl⟩

/-- The receive proxy leaves the sender's side alone. -/
theorem recvStep_frame (taken : recvStep edge state = some next) :
    next.cts = state.cts ∧ next.ctsDelivered = state.ctsDelivered ∧ next.writes = state.writes ∧
      next.sender = state.sender := by
  cases pc : state.receiver.pc with
  | ctsTest | ctsShadow | ctsPost | immTest | immPost | storeTail | poll | failed =>
      simp only [recvStep, pc, State.recvGoto] at taken
      grind
  | drain left =>
      cases left with
      | zero =>
          simp only [recvStep, pc, State.recvGoto] at taken
          grind
      | succ left =>
          simp only [recvStep, pc] at taken
          split at taken
          · cases taken
          · obtain rfl := Option.some.inj taken
            exact drainRecv_frame _ left _

/-- Only the send proxy and CTS deliveries touch what a pending credit depends on. -/
theorem sender_frame {label : Label} (taken : step edge state label = some next)
    (not_send : label ≠ .send) (not_poll : ∀ count, label ≠ .pollSend count)
    (not_deliver : label ≠ .deliverCts) :
    next.cts = state.cts ∧ next.ctsDelivered = state.ctsDelivered ∧ next.writes = state.writes ∧
      next.sender = state.sender := by
  cases label with
  | send => exact absurd rfl not_send
  | pollSend count => exact absurd rfl (not_poll count)
  | deliverCts => exact absurd rfl not_deliver
  | fill | publish | read | release =>
      obtain ⟨fifo, -, rfl⟩ := Option.map_eq_some_iff.mp taken
      exact ⟨rfl, rfl, rfl, rfl⟩
  | recv => exact recvStep_frame taken
  | pollRecv count =>
      simp only [step, pollRecv, State.recvGoto] at taken
      grind
  | ackCts =>
      simp only [step, ackCts] at taken
      grind
  | executeWrite =>
      simp only [step, executeWrite] at taken
      grind

/-- Only the receive proxy posts credits and receive work requests or stores `recv_tail`. -/
theorem receiver_frame {label : Label} (taken : step edge state label = some next)
    (not_recv : label ≠ .recv) (not_poll : ∀ count, label ≠ .pollRecv count) :
    next.ctsWrites = state.ctsWrites ∧ next.recvWrs = state.recvWrs ∧
      next.receiver = state.receiver ∧ next.recvFifo.tail = state.recvFifo.tail := by
  cases label with
  | recv => exact absurd rfl not_recv
  | pollRecv count => exact absurd rfl (not_poll count)
  | fill | publish =>
      obtain ⟨fifo, -, rfl⟩ := Option.map_eq_some_iff.mp taken
      exact ⟨rfl, rfl, rfl, rfl⟩
  | read =>
      simp only [step, RecvFifo.read] at taken
      grind
  | release =>
      simp only [step, RecvFifo.release] at taken
      grind
  | send =>
      simp only [step, sendStep, State.sendGoto] at taken
      grind
  | pollSend count =>
      simp only [step, pollSend, State.sendGoto] at taken
      grind
  | deliverCts =>
      simp only [step, deliverCts] at taken
      grind
  | ackCts =>
      simp only [step, ackCts] at taken
      grind
  | executeWrite =>
      simp only [step, executeWrite, RecvFifo.land] at taken
      grind

/-- Outside the post and the clear, the send proxy leaves CTS slots and WRITEs alone. -/
theorem sendStep_frame (taken : sendStep edge state = some next)
    (not_post : ∀ tail payload remoteAddr rkey zero,
      state.sender.pc ≠ .post tail payload remoteAddr rkey zero)
    (not_clear : state.sender.pc ≠ .clear) :
    next.cts = state.cts ∧ next.ctsDelivered = state.ctsDelivered ∧ next.writes = state.writes ∧
      next.sender.pc ≠ .clear := by
  cases pc : state.sender.pc with
  | post tail payload remoteAddr rkey zero => exact absurd pc (not_post _ _ _ _ _)
  | clear => exact absurd pc not_clear
  | top | size | ready | tag | target | next | drain | poll | failed =>
      simp only [sendStep, pc, State.sendGoto] at taken
      grind

/-! ### The clear after the post -/

/-- The CTS of step `t` has reached the sender. -/
def State.CtsArrived (state : State) (t : ℕ) : Prop :=
  t ∈ (state.ctsWrites.take state.ctsDelivered).map CtsWr.wrId

/-- The WRITE of step `t` is posted. -/
def State.WritePosted (state : State) (t : ℕ) : Prop :=
  t ∈ state.writes.map WriteWr.wrId

/-- Every credit that arrived and is not used yet is still in its slot. -/
def CreditKept (edge : Edge) (state : State) : Prop :=
  ∀ t, state.CtsArrived t → ¬ state.WritePosted t →
    (state.cts (t % edge.slotCount)).ready = 1 ∧ (state.cts (t % edge.slotCount)).stepTag = t

/-- No CTS is delivered into a slot between the post of the WRITE that used the slot's previous
CTS and the store that clears it. -/
def NoDeliveryBeforeClear (edge : Edge) (state : State) (label : Label) : Prop :=
  label = .deliverCts → state.sender.pc = .clear →
    ∀ wr, state.ctsWrites[state.ctsDelivered]? = some wr →
      wr.slot ≠ edge.slot state.sender.nextPostStep

/-- The credits in the sender's slots, when no delivery races with a clear. -/
structure CreditInv (edge : Edge) (state : State) : Prop where
  good : Good edge state
  clearing : state.sender.pc = .clear → state.ctsDelivered < state.writes.length + edge.maxInflight
  unused : ∀ k, state.writes.length ≤ k → k < state.ctsDelivered →
    state.cts (edge.slot (edge.step k)) = ctsOf edge (edge.step k)

theorem CreditInv.creditKept (inv : CreditInv edge state) : CreditKept edge state := by
  obtain ⟨completed, tailed, released, base⟩ := inv.good
  intro t arrived unposted
  obtain ⟨wr, member, rfl⟩ := List.mem_map.mp arrived
  obtain ⟨k, found⟩ := List.getElem?_of_mem member
  have inside : k < (state.ctsWrites.take state.ctsDelivered).length :=
    (List.getElem?_eq_some_iff.mp found).1
  rw [List.length_take] at inside
  rw [List.getElem?_take_of_lt (by omega)] at found
  have grants := base.ctsWrites.get found
  rw [Nat.zero_add] at grants
  rw [grants.1] at unposted ⊢
  have fresh : state.writes.length ≤ k := by
    by_contra old
    apply unposted
    have posted := List.getElem?_eq_getElem (Nat.lt_of_not_le old)
    have carries := base.writes.get posted
    rw [Nat.zero_add] at carries
    rw [← carries.1]
    exact List.mem_map_of_mem (List.getElem_mem _)
  have content := inv.unused k fresh (by omega)
  unfold Edge.slot at content
  rw [content]
  exact ⟨rfl, rfl⟩

theorem initial_creditInv (edge : Edge) : CreditInv edge (initial edge) where
  good := ⟨0, 0, 0, initial_inv edge⟩
  clearing := by simp [initial]
  unused := by simp [initial]

theorem CreditInv.frame (inv : CreditInv edge state) (good : Good edge next)
    (same_cts : next.cts = state.cts) (same_delivered : next.ctsDelivered = state.ctsDelivered)
    (same_writes : next.writes = state.writes)
    (same_pc : next.sender.pc = .clear → state.sender.pc = .clear) : CreditInv edge next where
  good := good
  clearing := by
    rw [same_delivered, same_writes]
    exact fun clearing => inv.clearing (same_pc clearing)
  unused := by
    rw [same_cts, same_delivered, same_writes]
    exact inv.unused

/-- The window of unused credits: it never exceeds the FIFO. -/
theorem Inv.delivered_lt {completed tailed released : ℕ}
    (inv : Inv edge state completed tailed released) :
    state.ctsDelivered ≤ state.writes.length + edge.maxInflight := by
  have := inv.released_le_writes
  have := inv.delivered_le
  have := inv.ctsWrites_le
  omega

theorem CreditInv.send_post (inv : CreditInv edge state)
    {tail payload remoteAddr rkey : ℕ} {zero : Bool}
    (pc : state.sender.pc = .post tail payload remoteAddr rkey zero)
    (taken : sendStep edge state = some next) : CreditInv edge next := by
  have good := good_step .send inv.good taken
  obtain ⟨completed, tailed, released, base⟩ := inv.good
  simp only [sendStep, pc] at taken
  obtain rfl := Option.some.inj taken
  refine ⟨good, fun _ => ?_, ?_⟩
  · have window := base.delivered_lt
    simp only [List.length_append, List.length_singleton]
    omega
  · intro k fresh arrived
    simp only [List.length_append, List.length_singleton] at fresh
    exact inv.unused k (by omega) arrived

theorem CreditInv.send_clear (inv : CreditInv edge state) (pc : state.sender.pc = .clear)
    (taken : sendStep edge state = some next) : CreditInv edge next := by
  have good := good_step .send inv.good taken
  obtain ⟨completed, tailed, released, base⟩ := inv.good
  have ok := base.sender
  simp only [SendOk, pc] at ok
  obtain ⟨last, posted, counter⟩ := ok
  have window := inv.clearing pc
  simp only [sendStep, pc, counter] at taken
  obtain rfl := Option.some.inj taken
  refine ⟨good, by simp, ?_⟩
  intro k fresh arrived
  -- An unused credit is less than one window ahead of the slice just posted.
  have apart : edge.slot (edge.step k) ≠ edge.slot (edge.step last) := by
    apply edge.slot_ne last
    all_goals
      simp only at fresh arrived
      omega
  exact (Function.update_of_ne apart _ _).trans (inv.unused k fresh arrived)

theorem CreditInv.deliverCts (inv : CreditInv edge state)
    (quiet : NoDeliveryBeforeClear edge state .deliverCts)
    (taken : deliverCts state = some next) : CreditInv edge next := by
  have good := good_step .deliverCts inv.good taken
  obtain ⟨completed, tailed, released, base⟩ := inv.good
  unfold WriteCts.deliverCts at taken
  split at taken
  · cases taken
  case h_2 wr found =>
    obtain rfl := Option.some.inj taken
    have inside : state.ctsDelivered < state.ctsWrites.length :=
      (List.getElem?_eq_some_iff.mp found).1
    obtain ⟨slot, content⟩ := base.delivered_slot found
    have released_le := base.released_le_writes
    have bound := base.ctsWrites_le
    refine ⟨good, ?_, ?_⟩
    · intro clearing
      have ok := base.sender
      simp only [SendOk, show state.sender.pc = .clear from clearing] at ok
      obtain ⟨last, posted, counter⟩ := ok
      have window := inv.clearing clearing
      have elsewhere := quiet rfl clearing wr found
      rw [slot, counter] at elsewhere
      by_contra full
      have wraps : state.ctsDelivered = last + edge.maxInflight := by
        simp only at full
        omega
      rw [wraps, edge.slot_add_maxInflight] at elsewhere
      exact elsewhere rfl
    · intro k fresh arrived
      show Function.update state.cts wr.slot (wr.inlined.getD (state.shadow wr.slot))
        (edge.slot (edge.step k)) = ctsOf edge (edge.step k)
      rw [content, slot]
      rcases Nat.lt_succ_iff_lt_or_eq.mp arrived with older | rfl
      · have apart : edge.slot (edge.step k) ≠ edge.slot (edge.step state.ctsDelivered) := by
          apply edge.slot_ne released
          all_goals
            simp only at fresh
            omega
        exact (Function.update_of_ne apart _ _).trans (inv.unused k fresh older)
      · exact Function.update_self _ _ _

theorem CreditInv.step (inv : CreditInv edge state) {label : Label}
    (quiet : NoDeliveryBeforeClear edge state label)
    (taken : WriteCts.step edge state label = some next) : CreditInv edge next := by
  have good := good_step label inv.good taken
  cases label with
  | send =>
      cases pc : state.sender.pc with
      | post => exact inv.send_post pc taken
      | clear => exact inv.send_clear pc taken
      | top | size | ready | tag | target | next | drain | poll | failed =>
          obtain ⟨cts, delivered, writes, not_clear⟩ :=
            sendStep_frame taken (by simp [pc]) (by simp [pc])
          exact inv.frame good cts delivered writes fun clearing => absurd clearing not_clear
  | pollSend count =>
      simp only [WriteCts.step, pollSend] at taken
      split_ifs at taken
      obtain rfl := Option.some.inj taken
      exact inv.frame good rfl rfl rfl (by simp [State.sendGoto])
  | deliverCts => exact inv.deliverCts quiet taken
  | fill | publish | recv | pollRecv | ackCts | executeWrite | read | release =>
      obtain ⟨cts, delivered, writes, sender⟩ := sender_frame taken (by simp) (by simp) (by simp)
      exact inv.frame good cts delivered writes fun clearing => sender ▸ clearing

/-- In a run without a delivery between a post and its clear, no credit is lost. -/
theorem creditKept_of_noDeliveryBeforeClear {labels : List Label}
    (quiet : Along (step edge) (NoDeliveryBeforeClear edge) (initial edge) labels)
    (run : exec (step edge) (initial edge) labels = some state) : CreditKept edge state := by
  have inv := exec_invariant_along (CreditInv edge)
    (fun _ _ _ inv quiet taken => inv.step quiet taken) (initial_creditInv edge) quiet run
  exact inv.creditKept

/-- All slots are prepared and credited, and the first slice is posted but its CTS slot is not
cleared yet. -/
def firstPost : List Label :=
  List.flatten
    [List.replicate 22 .recv, List.replicate 4 .deliverCts, List.replicate 4 .ackCts,
      [.fill [5, 6], .publish], List.replicate 7 .send]

/-- The first slice is executed, read and released, and the receive proxy comes back to its CTS
loop. -/
def firstReturn : List Label :=
  List.flatten
    [[.executeWrite, .recv, .recv, .pollRecv 3], List.replicate 4 .recv, [.read, .release, .recv]]

/-- Slot 0 is cleared after the post of step 0, and the CTS of step 8 arrives in it afterwards. -/
theorem creditKept_of_noDeliveryBeforeClear_secondRound :
    ∃ state, exec (step communicatorEdge) (initial communicatorEdge)
        (firstPost ++ [.send] ++ firstReturn ++ [.recv, .recv, .recv, .deliverCts]) = some state ∧
      (state.ctsWrites.take state.ctsDelivered).map CtsWr.wrId = [0, 2, 4, 6, 8] ∧
      state.writes.map WriteWr.wrId = [0] ∧ CreditKept communicatorEdge state := by
  let labels := firstPost ++ [.send] ++ firstReturn ++ [.recv, .recv, .recv, .deliverCts]
  have run : (exec (step communicatorEdge) (initial communicatorEdge) labels).map
      (fun state => ((state.ctsWrites.take state.ctsDelivered).map CtsWr.wrId,
        state.writes.map WriteWr.wrId)) = some ([0, 2, 4, 6, 8], [0]) := by
    decide +kernel
  obtain ⟨state, execution, seen⟩ := Option.map_eq_some_iff.mp run
  obtain ⟨arrived, posted⟩ := Prod.mk.inj seen
  refine ⟨state, execution, arrived, posted, creditKept_of_noDeliveryBeforeClear ?_ execution⟩
  have quiet : checkAlong (step communicatorEdge)
      (fun state label => decide (label = .deliverCts → state.sender.pc ≠ .clear))
      (initial communicatorEdge) labels = true := by
    decide +kernel
  refine along_of_checkAlong ?_ quiet
  intro before label checked delivers clearing
  exact absurd clearing (of_decide_eq_true checked delivers)

/-- The CTS of step 8 arrives after the WRITE of step 0 is posted and before slot 0 is cleared. -/
theorem racing_clear_loses_credit :
    ¬ ∀ (edge : Edge) (state : State), Reachable edge state → CreditKept edge state := by
  intro kept
  let labels := firstPost ++ firstReturn ++ [.recv, .recv, .recv, .deliverCts, .send]
  have run : (exec (step communicatorEdge) (initial communicatorEdge) labels).map
      (fun state => ((state.ctsWrites.take state.ctsDelivered).map CtsWr.wrId,
        state.writes.map WriteWr.wrId, (state.cts 0).ready)) = some ([0, 2, 4, 6, 8], [0], 0) := by
    decide +kernel
  obtain ⟨state, execution, seen⟩ := Option.map_eq_some_iff.mp run
  obtain ⟨arrived, seen⟩ := Prod.mk.inj seen
  obtain ⟨posted, cleared⟩ := Prod.mk.inj seen
  have credit := kept communicatorEdge state ⟨labels, execution⟩ 8
    (by simp [State.CtsArrived, arrived]) (by simp [State.WritePosted, posted])
  have raised : (state.cts 0).ready = 1 := credit.1
  omega

/-- A delivery that does race with a clear loses its credit as soon as the send proxy moves. -/
theorem not_creditKept_of_delivery_before_clear (reach : Reachable edge state) {wr : CtsWr}
    {delivered cleared : State} (clearing : state.sender.pc = .clear)
    (found : state.ctsWrites[state.ctsDelivered]? = some wr)
    (races : wr.slot = edge.slot state.sender.nextPostStep)
    (arrives : deliverCts state = some delivered)
    (clears : sendStep edge delivered = some cleared) : ¬ CreditKept edge cleared := by
  obtain ⟨completed, tailed, released, inv⟩ := reach.good
  have inside : state.ctsDelivered < state.ctsWrites.length :=
    (List.getElem?_eq_some_iff.mp found).1
  have grants := inv.ctsWrites.get found
  rw [Nat.zero_add] at grants
  simp only [deliverCts, found] at arrives
  obtain rfl := Option.some.inj arrives
  simp only [sendStep, clearing] at clears
  obtain rfl := Option.some.inj clears
  intro kept
  have credit := kept wr.wrId ?_ ?_
  · have slot : wr.wrId % edge.slotCount = edge.slot state.sender.nextPostStep := by
      rw [← races, grants.2.1, grants.1]
      rfl
    simp [slot] at credit
  · apply List.mem_map_of_mem
    exact List.mem_of_getElem? ((List.getElem?_take_of_lt (Nat.lt_succ_self _)).trans found)
  · intro posted
    obtain ⟨write, member, same⟩ := List.mem_map.mp posted
    obtain ⟨k, at_k⟩ := List.getElem?_of_mem member
    have carries := inv.writes.get at_k
    rw [Nat.zero_add] at carries
    have old : k < state.writes.length := (List.getElem?_eq_some_iff.mp at_k).1
    have unused := inv.writes_le
    rw [carries.1, grants.1, edge.step_inj] at same
    omega

/-! ### Receive work requests before credits -/

/-- Every CTS handed to the network has its receive work request posted. -/
def PostedFirst (state : State) : Prop :=
  ∀ wr ∈ state.ctsWrites, wr.wrId < state.receiver.nextPostStep ∧ wr.wrId ∈ state.recvWrs

/-- The CTS loop of `progress` finds no credit for a step whose receive work request is still to
be posted: when it tests the credit with `next_cts_step_ = next_post_step_`, the consumer has not
released that slot. -/
def NoCreditBeyondPosted (edge : Edge) (state : State) (label : Label) : Prop :=
  label = .recv → state.receiver.pc = .ctsTest → state.receiver.prepared = true →
    state.receiver.inflightCts < edge.maxInflight →
      state.receiver.nextCtsStep = state.receiver.nextPostStep →
        state.recvFifo.head + edge.slotCount < state.receiver.nextCtsStep + edge.stepIncrement

instance (edge : Edge) (state : State) (label : Label) :
    Decidable (NoCreditBeyondPosted edge state label) :=
  inferInstanceAs (Decidable (_ → _ → _ → _ → _ → _))

/-- Until `prepare` returns, nothing is released and its first loop fills the receive queue. -/
def Preparing (edge : Edge) (state : State) : Prop :=
  state.receiver.prepared = false → state.recvFifo.tail = edge.base ∧
    state.receiver.inflight = state.recvWrs.length ∧
      match state.receiver.pc with
      | .immTest | .immPost => True
      | .ctsTest | .ctsShadow | .ctsPost => state.recvWrs.length = edge.maxInflight
      | .poll | .drain _ | .storeTail _ | .failed _ => False

/-- The receive queue stays ahead of the credits. -/
structure QueueInv (edge : Edge) (state : State) : Prop where
  good : Good edge state
  ahead : state.ctsWrites.length ≤ state.recvWrs.length
  posting : state.receiver.pc = .ctsShadow ∨ state.receiver.pc = .ctsPost →
    state.ctsWrites.length < state.recvWrs.length
  preparing : Preparing edge state

theorem QueueInv.postedFirst (inv : QueueInv edge state) : PostedFirst state := by
  obtain ⟨completed, tailed, released, base⟩ := inv.good
  intro wr member
  obtain ⟨k, found⟩ := List.getElem?_of_mem member
  have inside : k < state.ctsWrites.length := (List.getElem?_eq_some_iff.mp found).1
  have grants := base.ctsWrites.get found
  rw [Nat.zero_add] at grants
  have posted : k < state.recvWrs.length := inside.trans_le inv.ahead
  have waiting := base.recvWrs.get (List.getElem?_eq_getElem posted)
  rw [Nat.zero_add] at waiting
  refine ⟨?_, ?_⟩
  · rw [grants.1, base.recvNextPost, edge.step_lt_step]
    exact posted
  · rw [grants.1, ← waiting]
    exact List.getElem_mem posted

theorem initial_queueInv (edge : Edge) : QueueInv edge (initial edge) where
  good := ⟨0, 0, 0, initial_inv edge⟩
  ahead := le_rfl
  posting := by simp [initial]
  preparing := fun _ => ⟨rfl, rfl, trivial⟩

theorem QueueInv.frame (inv : QueueInv edge state) (good : Good edge next)
    (same_cts : next.ctsWrites = state.ctsWrites) (same_recvWrs : next.recvWrs = state.recvWrs)
    (same_receiver : next.receiver = state.receiver)
    (same_tail : next.recvFifo.tail = state.recvFifo.tail) : QueueInv edge next := by
  obtain ⟨-, ahead, posting, preparing⟩ := inv
  refine ⟨good, ?_, ?_, ?_⟩
  · rwa [same_cts, same_recvWrs]
  · rwa [same_cts, same_recvWrs, same_receiver]
  · unfold Preparing at preparing ⊢
    rwa [same_recvWrs, same_receiver, same_tail]

/-- Before `prepare` returns, the credit is one whole FIFO. -/
theorem Preparing.credit_iff (preparing : Preparing edge state) (good : Good edge state)
    (unprepared : state.receiver.prepared = false) (k : ℕ) :
    state.credit edge (edge.step k) ↔ k < edge.maxInflight := by
  obtain ⟨completed, tailed, released, base⟩ := good
  have tail := (preparing unprepared).1
  rw [base.recvFifo.tail, ← edge.step_zero, edge.step_inj] at tail
  have released_le := base.recvFifo.released_le
  obtain rfl : released = 0 := by omega
  rw [base.credit_iff, Nat.zero_add]

/-- A credit test that admits a CTS finds its receive work request posted. -/
theorem QueueInv.admitted (inv : QueueInv edge state)
    (quiet : NoCreditBeyondPosted edge state .recv) (pc : state.receiver.pc = .ctsTest)
    (room : state.receiver.inflightCts < edge.maxInflight)
    (credit : state.credit edge state.receiver.nextCtsStep) :
    state.ctsWrites.length < state.recvWrs.length := by
  obtain ⟨completed, tailed, released, base⟩ := inv.good
  cases prepared : state.receiver.prepared with
  | true =>
      refine inv.ahead.lt_of_ne fun same => ?_
      have level : state.receiver.nextCtsStep = state.receiver.nextPostStep := by
        rw [base.recvNextCts, base.recvNextPost, same]
      exact absurd credit (Nat.not_le.mpr (quiet rfl pc prepared room level))
  | false =>
      rw [base.recvNextCts, inv.preparing.credit_iff inv.good prepared] at credit
      have filled := (inv.preparing prepared).2.2
      simp only [pc] at filled
      rw [filled]
      exact credit

theorem QueueInv.recv_ctsTest (inv : QueueInv edge state)
    (quiet : NoCreditBeyondPosted edge state .recv) (pc : state.receiver.pc = .ctsTest)
    (taken : recvStep edge state = some next) : QueueInv edge next := by
  have good := good_step .recv inv.good taken
  have preparing := inv.preparing
  simp only [Preparing, pc] at preparing
  simp only [recvStep, pc] at taken
  split_ifs at taken with admitted prepared
  · obtain rfl := Option.some.inj taken
    exact ⟨good, inv.ahead, fun _ => inv.admitted quiet pc admitted.1 admitted.2, preparing⟩
  · obtain rfl := Option.some.inj taken
    refine ⟨good, inv.ahead, by simp [State.recvGoto], ?_⟩
    intro unprepared
    exact absurd (prepared.symm.trans unprepared) (by simp)
  · obtain rfl := Option.some.inj taken
    exact ⟨good, inv.ahead, by simp, by simp [Preparing]⟩

theorem QueueInv.recv_immTest (inv : QueueInv edge state) (pc : state.receiver.pc = .immTest)
    (taken : recvStep edge state = some next) : QueueInv edge next := by
  have good := good_step .recv inv.good taken
  have preparing := inv.preparing
  simp only [Preparing, pc] at preparing
  simp only [recvStep, pc] at taken
  split_ifs at taken with admitted prepared
  · obtain rfl := Option.some.inj taken
    exact ⟨good, inv.ahead, by simp [State.recvGoto], preparing⟩
  · obtain rfl := Option.some.inj taken
    refine ⟨good, inv.ahead, by simp [State.recvGoto], ?_⟩
    intro unprepared
    exact absurd (prepared.symm.trans unprepared) (by simp)
  · obtain rfl := Option.some.inj taken
    refine ⟨good, inv.ahead, by simp [State.recvGoto], fun unprepared => ?_⟩
    obtain ⟨tail, inflight, -⟩ := preparing unprepared
    refine ⟨tail, inflight, ?_⟩
    -- The loop of `prepare` stopped, so all of the FIFO has its receive work requests.
    obtain ⟨completed, tailed, released, base⟩ := inv.good
    rw [base.recvFifo.tail, ← edge.step_zero, edge.step_inj] at tail
    have released_le := base.recvFifo.released_le
    have bound := base.recvWrs_le
    rw [base.recvNextPost, inv.preparing.credit_iff inv.good unprepared, inflight] at admitted
    show state.recvWrs.length = edge.maxInflight
    omega

theorem QueueInv.recv_ctsPost (inv : QueueInv edge state) (pc : state.receiver.pc = .ctsPost)
    (taken : recvStep edge state = some next) : QueueInv edge next := by
  have good := good_step .recv inv.good taken
  have preparing := inv.preparing
  simp only [Preparing, pc] at preparing
  simp only [recvStep, pc] at taken
  obtain rfl := Option.some.inj taken
  refine ⟨good, ?_, by simp, preparing⟩
  simp only [List.length_append, List.length_singleton]
  exact inv.posting (Or.inr pc)

theorem QueueInv.recv_immPost (inv : QueueInv edge state) (pc : state.receiver.pc = .immPost)
    (taken : recvStep edge state = some next) : QueueInv edge next := by
  have good := good_step .recv inv.good taken
  have preparing := inv.preparing
  simp only [Preparing, pc] at preparing
  simp only [recvStep, pc] at taken
  obtain rfl := Option.some.inj taken
  refine ⟨good, ?_, by simp, fun unprepared => ?_⟩
  · simp only [List.length_append, List.length_singleton]
    exact inv.ahead.trans (Nat.le_succ _)
  · obtain ⟨tail, inflight, -⟩ := preparing unprepared
    exact ⟨tail, by simp [inflight], trivial⟩

/-- A batch is only drained after `prepare`, and draining posts nothing. -/
theorem drainRecv_posts (state : State) (left : ℕ) (wc : RecvWc) :
    (drainRecv edge state left wc).ctsWrites = state.ctsWrites ∧
      (drainRecv edge state left wc).recvWrs = state.recvWrs ∧
      (drainRecv edge state left wc).receiver.prepared = state.receiver.prepared ∧
      (drainRecv edge state left wc).receiver.pc ≠ .ctsShadow ∧
      (drainRecv edge state left wc).receiver.pc ≠ .ctsPost := by
  cases wc with
  | cts =>
      simp only [drainRecv]
      split <;> simp [State.recvGoto]
  | imm =>
      simp only [drainRecv]
      split_ifs <;> simp [State.recvGoto]

theorem QueueInv.drained (inv : QueueInv edge state) (good : Good edge next)
    (prepared : state.receiver.prepared = true)
    (posts : next.ctsWrites = state.ctsWrites ∧ next.recvWrs = state.recvWrs ∧
      next.receiver.prepared = state.receiver.prepared ∧ next.receiver.pc ≠ .ctsShadow ∧
      next.receiver.pc ≠ .ctsPost) : QueueInv edge next := by
  obtain ⟨ctsWrites, recvWrs, still, not_shadow, not_post⟩ := posts
  refine ⟨good, ?_, fun posting => ?_, fun unprepared => ?_⟩
  · rw [ctsWrites, recvWrs]
    exact inv.ahead
  · exact absurd posting (by simp [not_shadow, not_post])
  · rw [still, prepared] at unprepared
    cases unprepared

theorem QueueInv.recv (inv : QueueInv edge state) (quiet : NoCreditBeyondPosted edge state .recv)
    (taken : recvStep edge state = some next) : QueueInv edge next := by
  have good := good_step .recv inv.good taken
  have preparing := inv.preparing
  cases pc : state.receiver.pc with
  | ctsTest => exact inv.recv_ctsTest quiet pc taken
  | immTest => exact inv.recv_immTest pc taken
  | ctsPost => exact inv.recv_ctsPost pc taken
  | immPost => exact inv.recv_immPost pc taken
  | ctsShadow =>
      simp only [Preparing, pc] at preparing
      simp only [recvStep, pc] at taken
      obtain rfl := Option.some.inj taken
      exact ⟨good, inv.ahead, fun _ => inv.posting (Or.inl pc), preparing⟩
  | poll | failed => simp [recvStep, pc] at taken
  | storeTail left =>
      simp only [Preparing, pc, and_false, imp_false, Bool.not_eq_false] at preparing
      simp only [recvStep, pc] at taken
      obtain rfl := Option.some.inj taken
      exact inv.drained good preparing ⟨rfl, rfl, rfl, by simp, by simp⟩
  | drain left =>
      simp only [Preparing, pc, and_false, imp_false, Bool.not_eq_false] at preparing
      cases left with
      | zero =>
          simp only [recvStep, pc] at taken
          obtain rfl := Option.some.inj taken
          exact inv.drained good preparing ⟨rfl, rfl, rfl, by simp [State.recvGoto]⟩
      | succ left =>
          simp only [recvStep, pc] at taken
          split at taken
          · cases taken
          · obtain rfl := Option.some.inj taken
            exact inv.drained good preparing (drainRecv_posts _ left _)

theorem QueueInv.step (inv : QueueInv edge state) {label : Label}
    (quiet : NoCreditBeyondPosted edge state label)
    (taken : WriteCts.step edge state label = some next) : QueueInv edge next := by
  have good := good_step label inv.good taken
  cases label with
  | recv => exact inv.recv quiet taken
  | pollRecv count =>
      simp only [WriteCts.step, pollRecv] at taken
      split_ifs at taken with guard
      obtain rfl := Option.some.inj taken
      have preparing := inv.preparing
      simp only [Preparing, guard.1, and_false, imp_false, Bool.not_eq_false] at preparing
      exact inv.drained good preparing ⟨rfl, rfl, rfl, by simp [State.recvGoto]⟩
  | fill | publish | send | pollSend | deliverCts | ackCts | executeWrite | read | release =>
      obtain ⟨ctsWrites, recvWrs, receiver, tail⟩ := receiver_frame taken (by simp) (by simp)
      exact inv.frame good ctsWrites recvWrs receiver tail

/-- In a run whose CTS loop never meets credit beyond the posted receive work requests, every
credit follows its receive work request. -/
theorem postedFirst_of_noCreditBeyondPosted {labels : List Label}
    (quiet : Along (step edge) (NoCreditBeyondPosted edge) (initial edge) labels)
    (run : exec (step edge) (initial edge) labels = some state) : PostedFirst state := by
  have inv := exec_invariant_along (QueueInv edge)
    (fun _ _ _ inv quiet taken => inv.step quiet taken) (initial_queueInv edge) quiet run
  exact inv.postedFirst

/-- The consumer releases the first slice between the CTS loop of one `progress` and its loop over
receive work requests, and the next `progress` sends the CTS of step 8. -/
def secondRound : List Label :=
  List.flatten
    [firstPost, [.executeWrite, .recv, .recv, .pollRecv 3], List.replicate 6 .recv,
      [.read, .release, .recv, .recv, .recv, .pollRecv 0], List.replicate 4 .recv]

theorem postedFirst_of_noCreditBeyondPosted_secondRound :
    ∃ state, exec (step communicatorEdge) (initial communicatorEdge) secondRound = some state ∧
      state.ctsWrites.map CtsWr.wrId = [0, 2, 4, 6, 8] ∧
      state.recvWrs = [0, 2, 4, 6, 8] ∧ PostedFirst state := by
  have run : (exec (step communicatorEdge) (initial communicatorEdge) secondRound).map
      (fun state => (state.ctsWrites.map CtsWr.wrId, state.recvWrs)) =
        some ([0, 2, 4, 6, 8], [0, 2, 4, 6, 8]) := by
    decide +kernel
  obtain ⟨state, execution, seen⟩ := Option.map_eq_some_iff.mp run
  obtain ⟨credited, posted⟩ := Prod.mk.inj seen
  have quiet : checkAlong (step communicatorEdge)
      (fun state label => decide (NoCreditBeyondPosted communicatorEdge state label))
      (initial communicatorEdge) secondRound = true := by
    decide +kernel
  exact ⟨state, execution, credited, posted, postedFirst_of_noCreditBeyondPosted
    (along_of_checkAlong (fun _ _ => of_decide_eq_true) quiet) execution⟩

/-- A test that does meet credit beyond the posted receive work requests puts a CTS ahead of its
receive work request. -/
theorem not_postedFirst_of_credit_beyond_posted (pc : state.receiver.pc = .ctsTest)
    (room : state.receiver.inflightCts < edge.maxInflight)
    (level : state.receiver.nextCtsStep = state.receiver.nextPostStep)
    (credit : state.credit edge state.receiver.nextCtsStep)
    (run : exec (step edge) state [.recv, .recv, .recv] = some next) : ¬ PostedFirst next := by
  simp only [exec, step, recvStep, pc, room, credit, and_self, if_true, State.recvGoto,
    Option.bind_some] at run
  obtain rfl := Option.some.inj run
  intro first
  have ordered := (first _ (List.mem_append_right _ (List.mem_singleton_self _))).1
  exact absurd level ordered.ne

/-- After the consumer releases the first slice, the CTS of step 8 is posted while
`next_post_step_` is still 8. -/
theorem credit_before_recvWr :
    ¬ ∀ (edge : Edge) (state : State), Reachable edge state → PostedFirst state := by
  intro first
  let labels := firstPost ++ firstReturn ++ [.recv, .recv, .recv]
  have run : (exec (step communicatorEdge) (initial communicatorEdge) labels).map
      (fun state => (state.ctsWrites.map CtsWr.wrId, state.receiver.nextPostStep)) =
        some ([0, 2, 4, 6, 8], 8) := by
    decide +kernel
  obtain ⟨state, execution, seen⟩ := Option.map_eq_some_iff.mp run
  obtain ⟨credited, posted⟩ := Prod.mk.inj seen
  have member : 8 ∈ state.ctsWrites.map CtsWr.wrId := by simp [credited]
  obtain ⟨wr, inside, eight⟩ := List.mem_map.mp member
  have ordered := (first communicatorEdge state ⟨labels, execution⟩ wr inside).1
  omega

end NanoNccl.Rdma.WriteCts
