import NanoNccl.Lib.Numbered
import NanoNccl.Rdma.SendRecv

/-!
# Safe and ordered delivery over SEND/RECV

SENDs and receive work requests are both numbered by slices, so the `k`-th SEND meets the buffer
of the `k`-th slice. A window of the FIFO separates what is posted to receive from what the
consumer has released.
-/

namespace NanoNccl.Rdma.SendRecv

open Queue

/-- The send proxy is about to post the next slice, of the given size. -/
def State.NextSlice (state : State) (payload : ℕ) : Prop :=
  ∃ slice, state.sendFifo.published[state.sends.length]? = some slice ∧ payload = slice.length

/-- What the send proxy knows at its program point. -/
def SendOk (state : State) : Prop :=
  match state.sender.pc with
  | .size _ => ∃ payload, state.NextSlice payload
  | .next _ payload | .post _ payload _ => state.NextSlice payload
  | .top | .poll | .drain _ | .failed _ => True

/-- What the receive proxy knows at its program point. -/
def RecvOk (edge : Edge) (state : State) (released : ℕ) : Prop :=
  match state.receiver.pc with
  | .post => state.recvWrs.length < released + edge.maxInflight
  | .unexpectedSlot => False
  | .test | .poll | .drain _ | .storeTail _ => True

/-- Sizes stored by the receive proxy beyond `recv_tail`. -/
def RecvPc.stored : RecvPc → ℕ
  | .storeTail _ => 1
  | _ => 0

/-- The `k`-th SEND carries the `k`-th slice. -/
def Carries (edge : Edge) (published : List (List UInt8)) (k : ℕ) (wr : SendWr) : Prop :=
  wr.wrId = edge.step k ∧ wr.addr = edge.sendAddr (edge.slot (edge.step k)) ∧
    ∃ slice, published[k]? = some slice ∧ wr.length = slice.length

/-- The completion of the `k`-th slice. -/
def Arrives (edge : Edge) (published : List (List UInt8)) (k : ℕ) (wc : RecvWc) : Prop :=
  wc.wrId = edge.slot (edge.step k) ∧
    ∃ slice, published[k]? = some slice ∧ wc.byteLen = slice.length

/-- The joint invariant, when `completed` slices are released to the producer, `tailed` are
published to the consumer and `released` are released by it. -/
structure Inv (edge : Edge) (state : State) (completed tailed released : ℕ) : Prop where
  sendFifo : state.sendFifo.Holds edge completed
  recvFifo : state.recvFifo.Holds edge state.sendFifo.published released tailed
    (tailed + state.receiver.pc.stored) state.executed
  completed_le : completed ≤ state.executed
  executed_le : state.executed ≤ state.sends.length
  executed_le_recvWrs : state.executed ≤ state.recvWrs.length
  recvWrs_le : state.recvWrs.length ≤ released + edge.maxInflight
  sends : Numbered (Carries edge state.sendFifo.published) 0 state.sends
  recvWrs : Numbered (fun k wr => wr = recvWrOf edge (edge.slot (edge.step k))) 0 state.recvWrs
  sendCq : edge.CompletesExecuted state.executed state.sendCq
  arrivals : Numbered (Arrives edge state.sendFifo.published) (tailed + state.receiver.pc.stored)
    state.recvCq
  arrivals_length : tailed + state.receiver.pc.stored + state.recvCq.length = state.executed
  nextPostStep : state.sender.nextPostStep = edge.step state.sends.length
  nextCompleteStep : state.sender.nextCompleteStep = edge.step completed
  recvNextPost : state.receiver.nextPostStep = edge.step state.recvWrs.length
  recvNextComplete : state.receiver.nextCompleteStep = edge.step tailed
  sender : SendOk state
  receiver : RecvOk edge state released

theorem initial_inv (edge : Edge) : Inv edge (initial edge) 0 0 0 where
  sendFifo := SendFifo.fresh_holds edge
  recvFifo := RecvFifo.fresh_holds edge
  completed_le := le_rfl
  executed_le := le_rfl
  executed_le_recvWrs := le_rfl
  recvWrs_le := Nat.zero_le _
  sends := trivial
  recvWrs := trivial
  sendCq := fun wrId absurd => by simp [initial] at absurd
  arrivals := trivial
  arrivals_length := rfl
  nextPostStep := edge.step_zero.symm
  nextCompleteStep := edge.step_zero.symm
  recvNextPost := edge.step_zero.symm
  recvNextComplete := edge.step_zero.symm
  sender := trivial
  receiver := trivial

theorem Carries.extend {edge : Edge} {published more : List (List UInt8)}
    (grown : published <+: more)
    (k : ℕ) (wr : SendWr) (carries : Carries edge published k wr) : Carries edge more k wr := by
  obtain ⟨wrId, addr, slice, found, rest⟩ := carries
  exact ⟨wrId, addr, slice, get_of_prefix grown found, rest⟩

theorem Arrives.extend {edge : Edge} {published more : List (List UInt8)}
    (grown : published <+: more)
    (k : ℕ) (wc : RecvWc) (arrives : Arrives edge published k wc) : Arrives edge more k wc := by
  obtain ⟨slot, slice, found, rest⟩ := arrives
  exact ⟨slot, slice, get_of_prefix grown found, rest⟩

theorem SendOk.frame {state next : State} (ok : SendOk state)
    (same_sender : next.sender = state.sender) (same_sends : next.sends = state.sends)
    (grown : state.sendFifo.published <+: next.sendFifo.published) : SendOk next := by
  have slice_kept : ∀ payload, state.NextSlice payload → next.NextSlice payload := by
    rintro payload ⟨slice, found, size⟩
    refine ⟨slice, ?_, size⟩
    rw [same_sends]
    exact get_of_prefix grown found
  unfold SendOk at ok ⊢
  rw [same_sender]
  cases pc : state.sender.pc with
  | top | poll | drain | failed => trivial
  | size =>
      rw [pc] at ok
      obtain ⟨payload, slice⟩ := ok
      exact ⟨payload, slice_kept payload slice⟩
  | next | post =>
      rw [pc] at ok
      exact slice_kept _ ok

theorem RecvOk.frame {edge : Edge} {state next : State} {released later : ℕ}
    (ok : RecvOk edge state released) (same_receiver : next.receiver = state.receiver)
    (same_recvWrs : next.recvWrs = state.recvWrs) (forward : released ≤ later) :
    RecvOk edge next later := by
  unfold RecvOk at ok ⊢
  rw [same_receiver, same_recvWrs]
  cases pc : state.receiver.pc with
  | post =>
      rw [pc] at ok
      exact ok.trans_le (by omega)
  | unexpectedSlot =>
      rw [pc] at ok
      exact ok
  | test | poll | drain | storeTail => trivial

section Steps

variable {edge : Edge} {state : State} {completed tailed released : ℕ}

/-! ### Producer, consumer and network -/

/-- A new state of the send FIFO, after a move of the producer. -/
theorem Inv.setSendFifo (inv : Inv edge state completed tailed released) {fifo : SendFifo}
    (holds : fifo.Holds edge completed) (grown : state.sendFifo.published <+: fifo.published) :
    Inv edge { state with sendFifo := fifo } completed tailed released :=
  { inv with
    sendFifo := holds
    recvFifo := inv.recvFifo.extend grown
    sends := inv.sends.mono (Carries.extend grown)
    arrivals := inv.arrivals.mono (Arrives.extend grown)
    sender := inv.sender.frame rfl rfl grown }

/-- A new state of the receive FIFO, after a move of the consumer. -/
theorem Inv.setRecvFifo (inv : Inv edge state completed tailed released) {fifo : RecvFifo}
    {later : ℕ} (forward : released ≤ later)
    (holds : fifo.Holds edge state.sendFifo.published later tailed
      (tailed + state.receiver.pc.stored) state.executed) :
    Inv edge { state with recvFifo := fifo } completed tailed later :=
  { inv with
    recvFifo := holds
    recvWrs_le := inv.recvWrs_le.trans (by omega)
    sender := inv.sender.frame rfl rfl (List.prefix_refl _)
    receiver := inv.receiver.frame rfl rfl forward }

theorem Inv.executeSend (inv : Inv edge state completed tailed released) {next : State}
    (step : executeSend state = some next) : Inv edge next completed tailed released := by
  unfold SendRecv.executeSend at step
  split at step
  case h_2 => cases step
  case h_1 wr recvWr posted waiting =>
    by_cases fits : wr.length ≤ recvWr.length
    case neg => simp [fits] at step
    rw [if_pos fits] at step
    obtain rfl := Option.some.inj step
    have pending : state.executed < state.sends.length := (List.getElem?_eq_some_iff.mp posted).1
    have waits : state.executed < state.recvWrs.length := (List.getElem?_eq_some_iff.mp waiting).1
    have carries := inv.sends.get posted
    have consumes := inv.recvWrs.get waiting
    rw [Nat.zero_add] at carries consumes
    obtain ⟨wrId, addr, slice, published, length⟩ := carries
    have bytes : Memory.block state.sendFifo.data wr.addr wr.length = slice := by
      rw [addr, length]
      exact (inv.sendFifo.stored _ _ inv.completed_le published).2
    rw [bytes, consumes, wrId, length]
    refine { inv with
      recvFifo := inv.recvFifo.land (waits.trans_le inv.recvWrs_le) inv.sendFifo.publishable
        published
      completed_le := inv.completed_le.trans (Nat.le_succ _)
      executed_le := pending
      executed_le_recvWrs := waits
      sendCq := inv.sendCq.execute wr.signaled
      arrivals := ?_
      arrivals_length := ?_
      sender := inv.sender.frame rfl rfl (List.prefix_refl _)
      receiver := inv.receiver.frame rfl rfl le_rfl }
    · apply inv.arrivals.concat
      rw [inv.arrivals_length]
      exact ⟨rfl, slice, published, rfl⟩
    · have counted := inv.arrivals_length
      simp only [List.length_append, List.length_singleton]
      omega

/-! ### The send proxy -/

theorem Inv.sendGoto (inv : Inv edge state completed tailed released) {pc : SendPc}
    (ok : SendOk (state.sendGoto pc)) :
    Inv edge (state.sendGoto pc) completed tailed released :=
  { inv with sender := ok, receiver := inv.receiver.frame rfl rfl le_rfl }

theorem Inv.send_size (inv : Inv edge state completed tailed released) {tail : ℕ}
    (pc : state.sender.pc = .size tail) {next : State} (step : sendStep edge state = some next) :
    Inv edge next completed tailed released := by
  have ok := inv.sender
  simp only [SendOk, pc] at ok
  obtain ⟨payload, slice, found, rfl⟩ := ok
  have size := inv.sendFifo.size_eq (inv.completed_le.trans inv.executed_le) found
  obtain ⟨nonempty, small, -⟩ := inv.sendFifo.publishable slice (List.mem_of_getElem? found)
  simp only [sendStep, pc] at step
  rw [inv.nextPostStep, size, if_neg (by omega), if_neg (by omega)] at step
  obtain rfl := Option.some.inj step
  exact inv.sendGoto ⟨slice, found, rfl⟩

theorem Inv.send_post (inv : Inv edge state completed tailed released) {tail payload : ℕ}
    {zero : Bool} (pc : state.sender.pc = .post tail payload zero) {next : State}
    (step : sendStep edge state = some next) : Inv edge next completed tailed released := by
  have ok := inv.sender
  simp only [SendOk, pc] at ok
  obtain ⟨slice, found, rfl⟩ := ok
  simp only [sendStep, pc, inv.nextPostStep] at step
  obtain rfl := Option.some.inj step
  refine { inv with executed_le := ?_, sends := ?_, nextPostStep := ?_, sender := trivial,
                    receiver := inv.receiver.frame rfl rfl le_rfl }
  · simp only [List.length_append, List.length_singleton]
    exact inv.executed_le.trans (Nat.le_succ _)
  · apply inv.sends.concat
    rw [Nat.zero_add]
    exact ⟨rfl, rfl, slice, found, rfl⟩
  · simp only [List.length_append, List.length_singleton]
    exact edge.step_succ _

/-- A completion releases slices that are executed. -/
theorem Inv.send_drain (inv : Inv edge state completed tailed released) {left : ℕ}
    (pc : state.sender.pc = .drain (left + 1)) {next : State}
    (step : sendStep edge state = some next) : ∃ later, Inv edge next later tailed released := by
  simp only [sendStep, pc] at step
  split at step
  · cases step
  case h_2 wrId later pending =>
    split at step
    · obtain rfl := Option.some.inj step
      exact ⟨completed, inv.sendGoto trivial⟩
    case h_2 nextCompleteStep inflight accepted =>
      obtain rfl := Option.some.inj step
      rw [inv.nextCompleteStep] at accepted
      obtain ⟨more, executed, next, holds, completes⟩ :=
        inv.sendFifo.complete inv.recvFifo.landed_le (pending ▸ inv.sendCq) accepted
      exact ⟨more, { inv with
        sendFifo := holds
        completed_le := executed
        sendCq := completes
        nextCompleteStep := next
        sender := trivial
        receiver := inv.receiver.frame rfl rfl le_rfl }⟩

theorem Inv.send (inv : Inv edge state completed tailed released) {next : State}
    (step : sendStep edge state = some next) : ∃ later, Inv edge next later tailed released := by
  cases pc : state.sender.pc with
  | top =>
      simp only [sendStep, pc] at step
      split_ifs at step with pending
      · obtain rfl := Option.some.inj step
        have below := pending.2
        rw [inv.nextPostStep] at below
        obtain ⟨slice, found⟩ := inv.sendFifo.exists_published below
        exact ⟨completed, inv.sendGoto ⟨slice.length, slice, found, rfl⟩⟩
      · obtain rfl := Option.some.inj step
        exact ⟨completed, inv.sendGoto trivial⟩
  | size => exact ⟨completed, inv.send_size pc step⟩
  | next =>
      have ok := inv.sender
      simp only [SendOk, pc] at ok
      simp only [sendStep, pc] at step
      obtain rfl := Option.some.inj step
      exact ⟨completed, inv.sendGoto ok⟩
  | post => exact ⟨completed, inv.send_post pc step⟩
  | poll | failed => simp [sendStep, pc] at step
  | drain left =>
      cases left with
      | zero =>
          simp only [sendStep, pc] at step
          obtain rfl := Option.some.inj step
          exact ⟨completed, inv.sendGoto trivial⟩
      | succ left => exact inv.send_drain pc step

theorem Inv.pollSend (inv : Inv edge state completed tailed released) {count : ℕ} {next : State}
    (step : pollSend state count = some next) : Inv edge next completed tailed released := by
  unfold SendRecv.pollSend at step
  split_ifs at step
  obtain rfl := Option.some.inj step
  exact inv.sendGoto trivial

/-! ### The receive proxy -/

theorem Inv.recvGoto (inv : Inv edge state completed tailed released) {pc : RecvPc}
    (same_stored : pc.stored = state.receiver.pc.stored)
    (ok : RecvOk edge (state.recvGoto pc) released) :
    Inv edge (state.recvGoto pc) completed tailed released := by
  have stored : (state.recvGoto pc).receiver.pc.stored = state.receiver.pc.stored := same_stored
  refine { inv with
    recvFifo := ?_
    arrivals := ?_
    arrivals_length := ?_
    sender := inv.sender.frame rfl rfl (List.prefix_refl _)
    receiver := ok }
  · rw [stored]
    exact inv.recvFifo
  · rw [stored]
    exact inv.arrivals
  · rw [stored]
    exact inv.arrivals_length

theorem Inv.recv_test (inv : Inv edge state completed tailed released)
    (pc : state.receiver.pc = .test) {next : State} (step : recvStep edge state = some next) :
    Inv edge next completed tailed released := by
  simp only [recvStep, pc, inv.recvNextPost, inv.recvFifo.head, edge.credit_iff] at step
  split_ifs at step with admitted prepared
  · obtain rfl := Option.some.inj step
    exact inv.recvGoto (by simp [pc, RecvPc.stored]) admitted.2
  · obtain rfl := Option.some.inj step
    exact inv.recvGoto (by simp [pc, RecvPc.stored]) trivial
  · obtain rfl := Option.some.inj step
    have moved : Inv edge (state.recvGoto .test) completed tailed released :=
      inv.recvGoto (by simp [pc, RecvPc.stored]) trivial
    exact { moved with
      recvNextPost := rfl
      sender := inv.sender.frame rfl rfl (List.prefix_refl _)
      receiver := trivial }

theorem Inv.recv_post (inv : Inv edge state completed tailed released)
    (pc : state.receiver.pc = .post) {next : State} (step : recvStep edge state = some next) :
    Inv edge next completed tailed released := by
  have room := inv.receiver
  simp only [RecvOk, pc] at room
  simp only [recvStep, pc, inv.recvNextPost] at step
  obtain rfl := Option.some.inj step
  have moved : Inv edge (state.recvGoto .test) completed tailed released :=
    inv.recvGoto (by simp [pc, RecvPc.stored]) trivial
  refine { moved with
    executed_le_recvWrs := ?_
    recvWrs_le := ?_
    recvWrs := ?_
    recvNextPost := ?_
    sender := inv.sender.frame rfl rfl (List.prefix_refl _)
    receiver := trivial }
  · simp only [List.length_append, List.length_singleton]
    exact inv.executed_le_recvWrs.trans (Nat.le_succ _)
  · simp only [List.length_append, List.length_singleton]
    exact room
  · apply inv.recvWrs.concat
    rw [Nat.zero_add]
  · simp only [List.length_append, List.length_singleton]
    exact edge.step_succ _

/-- A completion is the next slice, and its size is stored. -/
theorem Inv.recv_drain (inv : Inv edge state completed tailed released) {left : ℕ}
    (pc : state.receiver.pc = .drain (left + 1)) {next : State}
    (step : recvStep edge state = some next) : Inv edge next completed tailed released := by
  have arrivals := inv.arrivals
  have counted := inv.arrivals_length
  have recvFifo := inv.recvFifo
  simp only [pc, RecvPc.stored, Nat.add_zero] at arrivals counted recvFifo
  simp only [recvStep, pc, inv.recvNextComplete] at step
  split at step
  · cases step
  case h_2 wc later pending =>
    rw [pending] at arrivals counted
    rw [List.length_cons] at counted
    obtain ⟨⟨slot, slice, found, size⟩, rest⟩ := arrivals
    rw [slot, size, if_neg (by simp)] at step
    obtain rfl := Option.some.inj step
    exact { inv with
      recvFifo := recvFifo.storeSize (by omega) found
      arrivals := rest
      arrivals_length := by
        show tailed + 1 + later.length = state.executed
        omega
      recvNextComplete := inv.recvNextComplete
      sender := inv.sender.frame rfl rfl (List.prefix_refl _)
      receiver := trivial }

theorem Inv.recv_storeTail (inv : Inv edge state completed tailed released) {left : ℕ}
    (pc : state.receiver.pc = .storeTail left) {next : State}
    (step : recvStep edge state = some next) : Inv edge next completed (tailed + 1) released := by
  have arrivals := inv.arrivals
  have counted := inv.arrivals_length
  have recvFifo := inv.recvFifo
  simp only [pc, RecvPc.stored] at arrivals counted recvFifo
  simp only [recvStep, pc, inv.recvNextComplete, edge.step_succ] at step
  obtain rfl := Option.some.inj step
  exact { inv with
    recvFifo := recvFifo.publishTail (Nat.lt_succ_self _)
    arrivals := arrivals
    arrivals_length := counted
    recvNextComplete := rfl
    sender := inv.sender.frame rfl rfl (List.prefix_refl _)
    receiver := trivial }

theorem Inv.recv (inv : Inv edge state completed tailed released) {next : State}
    (step : recvStep edge state = some next) : ∃ later, Inv edge next completed later released := by
  cases pc : state.receiver.pc with
  | test => exact ⟨tailed, inv.recv_test pc step⟩
  | post => exact ⟨tailed, inv.recv_post pc step⟩
  | poll | unexpectedSlot => simp [recvStep, pc] at step
  | drain left =>
      cases left with
      | zero =>
          simp only [recvStep, pc] at step
          obtain rfl := Option.some.inj step
          exact ⟨tailed, inv.recvGoto (by simp [pc, RecvPc.stored]) trivial⟩
      | succ left => exact ⟨tailed, inv.recv_drain pc step⟩
  | storeTail => exact ⟨tailed + 1, inv.recv_storeTail pc step⟩

theorem Inv.pollRecv (inv : Inv edge state completed tailed released) {count : ℕ} {next : State}
    (step : pollRecv state count = some next) : Inv edge next completed tailed released := by
  unfold SendRecv.pollRecv at step
  split_ifs at step with guard
  obtain rfl := Option.some.inj step
  exact inv.recvGoto (by simp [guard.1, RecvPc.stored]) trivial

end Steps

/-! ### Runs -/

/-- The joint invariant, with the progress counts hidden. -/
def Good (edge : Edge) (state : State) : Prop :=
  ∃ completed tailed released, Inv edge state completed tailed released

theorem good_step {edge : Edge} {state next : State} (label : Label) (good : Good edge state)
    (taken : step edge state label = some next) : Good edge next := by
  obtain ⟨completed, tailed, released, inv⟩ := good
  cases label with
  | fill payload =>
      obtain ⟨fifo, filled, rfl⟩ := Option.map_eq_some_iff.mp taken
      obtain ⟨holds, same, -⟩ := inv.sendFifo.fill filled
      exact ⟨completed, tailed, released, inv.setSendFifo holds (same ▸ List.prefix_refl _)⟩
  | publish =>
      obtain ⟨fifo, published, rfl⟩ := Option.map_eq_some_iff.mp taken
      obtain ⟨holds, grown, -⟩ := inv.sendFifo.publish published
      exact ⟨completed, tailed, released, inv.setSendFifo holds grown⟩
  | send =>
      obtain ⟨later, kept⟩ := inv.send taken
      exact ⟨later, tailed, released, kept⟩
  | pollSend count => exact ⟨completed, tailed, released, inv.pollSend taken⟩
  | recv =>
      obtain ⟨later, kept⟩ := inv.recv taken
      exact ⟨completed, later, released, kept⟩
  | pollRecv count => exact ⟨completed, tailed, released, inv.pollRecv taken⟩
  | executeSend => exact ⟨completed, tailed, released, inv.executeSend taken⟩
  | read =>
      obtain ⟨fifo, held, rfl⟩ := Option.map_eq_some_iff.mp taken
      exact ⟨completed, tailed, released, inv.setRecvFifo le_rfl (inv.recvFifo.read held).1⟩
  | release =>
      obtain ⟨fifo, held, rfl⟩ := Option.map_eq_some_iff.mp taken
      exact ⟨completed, tailed, released + 1,
        inv.setRecvFifo (Nat.le_succ _) (inv.recvFifo.release held)⟩

theorem Reachable.good {edge : Edge} {state : State} (reach : Reachable edge state) :
    Good edge state :=
  reach.invariant (Good edge) (fun _ label _ good taken => good_step label good taken)
    ⟨0, 0, 0, initial_inv edge⟩

/-! ### Delivery -/

/-- Delivery at one state. -/
structure SafeDelivery (edge : Edge) (state : State) : Prop where
  /-- The `k`-th receive work request targets the slot of the `k`-th slice, and the consumer has
  released every earlier slice of that slot. -/
  recvFree : ∀ (k : ℕ) (wr : RecvWr), state.recvWrs[k]? = some wr →
    wr.wrId = edge.step k % edge.slotCount ∧ wr.addr = edge.recvAddr wr.wrId ∧
      ∀ j < k, edge.step j % edge.slotCount = wr.wrId →
        edge.step j + edge.stepIncrement ≤ state.recvFifo.head
  /-- A send slot reported free by `send_head` has its SEND executed. -/
  sendComplete : ∀ k, edge.step k + edge.stepIncrement ≤ state.sendFifo.head →
    k < state.executed ∧ ∃ wr, state.sends[k]? = some wr ∧ wr.wrId = edge.step k
  /-- The slices read are the slices published, in order. -/
  inOrder : ∀ (k : ℕ) (slice : List UInt8), state.recvFifo.consumed[k]? = some slice →
    state.sendFifo.published[k]? = some slice
  /-- Completions come in the order of the slots. -/
  expectedSlot : state.receiver.pc ≠ .unexpectedSlot

theorem Inv.recvFree {edge : Edge} {state : State} {completed tailed released : ℕ}
    (inv : Inv edge state completed tailed released) {k : ℕ} {wr : RecvWr}
    (posted : state.recvWrs[k]? = some wr) :
    wr.wrId = edge.step k % edge.slotCount ∧ wr.addr = edge.recvAddr wr.wrId ∧
      ∀ j < k, edge.step j % edge.slotCount = wr.wrId →
        edge.step j + edge.stepIncrement ≤ state.recvFifo.head := by
  have inside : k < state.recvWrs.length := (List.getElem?_eq_some_iff.mp posted).1
  have bound := inv.recvWrs_le
  have shape := inv.recvWrs.get posted
  rw [Nat.zero_add] at shape
  subst shape
  refine ⟨rfl, rfl, ?_⟩
  intro j earlier same
  rw [inv.recvFifo.head, edge.step_succ, edge.step_le_step]
  by_contra unreleased
  exact edge.slot_ne released earlier.ne (by omega) (by omega) (by omega) (by omega) same

theorem Inv.sendComplete {edge : Edge} {state : State} {completed tailed released : ℕ}
    (inv : Inv edge state completed tailed released) {k : ℕ}
    (free : edge.step k + edge.stepIncrement ≤ state.sendFifo.head) :
    k < state.executed ∧ ∃ wr, state.sends[k]? = some wr ∧ wr.wrId = edge.step k := by
  rw [inv.sendFifo.head, edge.step_succ, edge.step_le_step] at free
  have executed : k < state.executed := Nat.lt_of_lt_of_le free inv.completed_le
  have posted := List.getElem?_eq_getElem (executed.trans_le inv.executed_le)
  have carries := inv.sends.get posted
  rw [Nat.zero_add] at carries
  exact ⟨executed, _, posted, carries.1⟩

/-- Delivery over SEND/RECV is safe and in order in every reachable state. -/
theorem sendRecv_delivery {edge : Edge} {state : State} (reach : Reachable edge state) :
    SafeDelivery edge state := by
  obtain ⟨completed, tailed, released, inv⟩ := reach.good
  refine { recvFree := fun k wr => inv.recvFree, sendComplete := fun k => inv.sendComplete,
           inOrder := ?_, expectedSlot := ?_ }
  · intro k slice read
    exact get_of_prefix inv.recvFifo.consumed_prefix read
  · intro failed
    have receiver := inv.receiver
    simp only [RecvOk, failed] at receiver

/-- All slots are posted to receive, and two slices travel to the consumer. -/
def twoSlices : List Label :=
  List.flatten
    [List.replicate 9 .recv, [.fill [5, 6], .publish], List.replicate 4 .send,
      [.fill [7], .publish], List.replicate 5 .send,
      [.executeSend, .executeSend, .recv, .pollRecv 2], List.replicate 4 .recv,
      [.read, .release, .read, .release, .pollSend 2, .send, .send]]

theorem sendRecv_delivery_twoSlices :
    ∃ state, Reachable communicatorEdge state ∧ state.recvFifo.consumed = [[5, 6], [7]] ∧
      state.sendFifo.head = 4 ∧ SafeDelivery communicatorEdge state := by
  have run : (StepSystem.exec (step communicatorEdge) (initial communicatorEdge) twoSlices).map
      (fun state => (state.recvFifo.consumed, state.sendFifo.head)) =
        some ([[5, 6], [7]], 4) := by
    decide +kernel
  obtain ⟨state, execution, seen⟩ := Option.map_eq_some_iff.mp run
  have reach : Reachable communicatorEdge state := ⟨twoSlices, execution⟩
  obtain ⟨consumed, head⟩ := Prod.mk.inj seen
  exact ⟨state, reach, consumed, head, sendRecv_delivery reach⟩

end NanoNccl.Rdma.SendRecv
