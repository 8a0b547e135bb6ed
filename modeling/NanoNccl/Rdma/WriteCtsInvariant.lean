import NanoNccl.Lib.Numbered
import NanoNccl.Rdma.WriteCts

/-!
# The joint invariant of the WRITE+CTS plane

Every wire of the edge carries consecutive slices, and the numbers of slices that passed each
point are ordered along the two causal chains of a slice: published, posted, executed, consumed
for its data; credited, delivered, posted for its CTS. One window of the FIFO bounds the distance
between the ends of each chain, so slices in flight never share a slot.
-/

namespace NanoNccl.Rdma.WriteCts

open Queue

/-- The send proxy is about to post the next slice, of the given size. -/
def State.NextSlice (state : State) (payload : ℕ) : Prop :=
  ∃ slice, state.sendFifo.published[state.writes.length]? = some slice ∧ payload = slice.length

/-- The CTS of the next slice to post is in its slot. -/
def State.NextCredit (edge : Edge) (state : State) : Prop :=
  state.writes.length < state.ctsDelivered ∧
    state.cts (edge.slot (edge.step state.writes.length)) =
      ctsOf edge (edge.step state.writes.length)

/-- What the send proxy knows at its program point. -/
def SendOk (edge : Edge) (state : State) : Prop :=
  match state.sender.pc with
  | .top | .poll | .drain _ => state.sender.nextPostStep = edge.step state.writes.length
  | .size _ =>
      state.sender.nextPostStep = edge.step state.writes.length ∧ ∃ payload, state.NextSlice payload
  | .ready _ payload =>
      state.sender.nextPostStep = edge.step state.writes.length ∧ state.NextSlice payload
  | .tag _ payload | .target _ payload =>
      state.sender.nextPostStep = edge.step state.writes.length ∧ state.NextSlice payload ∧
        state.NextCredit edge
  | .next _ payload remoteAddr _ | .post _ payload remoteAddr _ _ =>
      state.sender.nextPostStep = edge.step state.writes.length ∧ state.NextSlice payload ∧
        state.NextCredit edge ∧
        remoteAddr = edge.recvAddr (edge.slot (edge.step state.writes.length))
  | .clear => ∃ k, state.writes.length = k + 1 ∧ state.sender.nextPostStep = edge.step k
  | .failed error => error ≠ .stepTagMismatch ∧ (error = .targetInvalid → 2 ^ 32 ≤ edge.slotBytes)

/-- What the receive proxy knows at its program point. -/
def RecvOk (edge : Edge) (state : State) (released : ℕ) : Prop :=
  match state.receiver.pc with
  | .ctsShadow => state.ctsWrites.length < released + edge.maxInflight
  | .ctsPost =>
      state.ctsWrites.length < released + edge.maxInflight ∧
        state.shadow (edge.slot (edge.step state.ctsWrites.length)) =
          ctsOf edge (edge.step state.ctsWrites.length)
  | .immPost => state.recvWrs.length < released + edge.maxInflight
  | .failed error => error ≠ .unexpectedImmStep ∧ error ≠ .immPayloadExceedsCapacity
  | .ctsTest | .immTest | .poll | .drain _ | .storeTail _ => True

/-- Sizes stored by the receive proxy beyond `recv_tail`. -/
def RecvPc.stored : RecvPc → ℕ
  | .storeTail _ => 1
  | _ => 0

/-- The `k`-th WRITE carries the `k`-th slice to its receive slot. -/
def Carries (edge : Edge) (published : List (List UInt8)) (k : ℕ) (wr : WriteWr) : Prop :=
  wr.wrId = edge.step k ∧ wr.addr = edge.sendAddr (edge.slot (edge.step k)) ∧
    wr.remoteAddr = edge.recvAddr (edge.slot (edge.step k)) ∧
    ∃ slice, published[k]? = some slice ∧ wr.length = slice.length ∧
      wr.immData = swapBytes32 slice.length

/-- The `k`-th CTS write carries the credit of the `k`-th slice. -/
def Grants (edge : Edge) (k : ℕ) (wr : CtsWr) : Prop :=
  wr.wrId = edge.step k ∧ wr.slot = edge.slot (edge.step k) ∧
    (wr.inlined = none ∨ wr.inlined = some (ctsOf edge (edge.step k)))

/-- The data completion of the `k`-th slice. -/
def Arrives (edge : Edge) (published : List (List UInt8)) (k : ℕ) (wc : ℕ × ℕ) : Prop :=
  wc.1 = edge.step k ∧ ∃ slice, published[k]? = some slice ∧ wc.2 = swapBytes32 slice.length

/-- The joint invariant, when `completed` slices are released to the producer, `tailed` are
published to the consumer and `released` are released by it. -/
structure Inv (edge : Edge) (state : State) (completed tailed released : ℕ) : Prop where
  sendFifo : state.sendFifo.Holds edge completed
  recvFifo : state.recvFifo.Holds edge state.sendFifo.published released tailed
    (tailed + state.receiver.pc.stored) state.executed
  /-- The counts of a slice's data path, and of its credit path. -/
  completed_le : completed ≤ state.executed
  executed_le : state.executed ≤ state.writes.length
  executed_le_recvWrs : state.executed ≤ state.recvWrs.length
  writes_le : state.writes.length ≤ state.ctsDelivered
  delivered_le : state.ctsDelivered ≤ state.ctsWrites.length
  ctsWrites_le : state.ctsWrites.length ≤ released + edge.maxInflight
  recvWrs_le : state.recvWrs.length ≤ released + edge.maxInflight
  /-- The wires carry consecutive slices. -/
  writes : Numbered (Carries edge state.sendFifo.published) 0 state.writes
  recvWrs : Numbered (fun k wrId => wrId = edge.step k) 0 state.recvWrs
  ctsWrites : Numbered (Grants edge) 0 state.ctsWrites
  /-- A CTS that is still to be fetched is intact in its shadow slot. -/
  shadow : ∀ k, state.ctsDelivered ≤ k → k < state.ctsWrites.length →
    state.shadow (edge.slot (edge.step k)) = ctsOf edge (edge.step k)
  /-- A raised slot holds an unused credit, or the one whose clear is under way. -/
  cts : ∀ slot, (state.cts slot).ready = 1 → ∃ k < state.ctsDelivered,
    slot = edge.slot (edge.step k) ∧ state.cts slot = ctsOf edge (edge.step k) ∧
      (state.writes.length ≤ k ∨ state.sender.pc = .clear ∧ state.writes.length = k + 1)
  sendCq : edge.CompletesExecuted state.executed state.sendCq
  /-- The data completions not drained are the landed slices without a size. -/
  arrivals : Numbered (Arrives edge state.sendFifo.published) (tailed + state.receiver.pc.stored)
    (state.recvCq.filterMap RecvWc.imm?)
  arrivals_length : tailed + state.receiver.pc.stored +
    (state.recvCq.filterMap RecvWc.imm?).length = state.executed
  nextCompleteStep : state.sender.nextCompleteStep = edge.step completed
  recvNextPost : state.receiver.nextPostStep = edge.step state.recvWrs.length
  recvNextComplete : state.receiver.nextCompleteStep = edge.step tailed
  recvNextCts : state.receiver.nextCtsStep = edge.step state.ctsWrites.length
  sender : SendOk edge state
  receiver : RecvOk edge state released

theorem initial_inv (edge : Edge) : Inv edge (initial edge) 0 0 0 where
  sendFifo := SendFifo.fresh_holds edge
  recvFifo := RecvFifo.fresh_holds edge
  completed_le := le_rfl
  executed_le := le_rfl
  executed_le_recvWrs := le_rfl
  writes_le := le_rfl
  delivered_le := le_rfl
  ctsWrites_le := Nat.zero_le _
  recvWrs_le := Nat.zero_le _
  writes := trivial
  recvWrs := trivial
  ctsWrites := trivial
  shadow := fun k _ absurd => by simp [initial] at absurd
  cts := fun slot absurd => by simp [initial] at absurd
  sendCq := fun wrId absurd => by simp [initial] at absurd
  arrivals := trivial
  arrivals_length := rfl
  nextCompleteStep := edge.step_zero.symm
  recvNextPost := edge.step_zero.symm
  recvNextComplete := edge.step_zero.symm
  recvNextCts := edge.step_zero.symm
  sender := edge.step_zero.symm
  receiver := trivial

/-! ### Facts the program points keep when other parties move -/

theorem Carries.extend {edge : Edge} {published more : List (List UInt8)}
    (grown : published <+: more)
    (k : ℕ) (wr : WriteWr) (carries : Carries edge published k wr) : Carries edge more k wr := by
  obtain ⟨wrId, addr, remoteAddr, slice, found, rest⟩ := carries
  exact ⟨wrId, addr, remoteAddr, slice, get_of_prefix grown found, rest⟩

theorem Arrives.extend {edge : Edge} {published more : List (List UInt8)}
    (grown : published <+: more)
    (k : ℕ) (wc : ℕ × ℕ) (arrives : Arrives edge published k wc) : Arrives edge more k wc := by
  obtain ⟨step, slice, found, rest⟩ := arrives
  exact ⟨step, slice, get_of_prefix grown found, rest⟩

/-- The send proxy's knowledge survives new slices and new credit elsewhere. -/
theorem SendOk.frame {edge : Edge} {state next : State} (ok : SendOk edge state)
    (same_sender : next.sender = state.sender) (same_writes : next.writes = state.writes)
    (grown : state.sendFifo.published <+: next.sendFifo.published)
    (delivered : state.ctsDelivered ≤ next.ctsDelivered)
    (same_cts : state.writes.length < state.ctsDelivered →
      next.cts (edge.slot (edge.step state.writes.length)) =
        state.cts (edge.slot (edge.step state.writes.length))) : SendOk edge next := by
  have slice_kept : ∀ payload, state.NextSlice payload → next.NextSlice payload := by
    rintro payload ⟨slice, found, size⟩
    refine ⟨slice, ?_, size⟩
    rw [same_writes]
    exact get_of_prefix grown found
  have credit_kept : state.NextCredit edge → next.NextCredit edge := by
    rintro ⟨granted, slot⟩
    refine ⟨?_, ?_⟩
    · rw [same_writes]
      omega
    · rw [same_writes, same_cts granted, slot]
  unfold SendOk at ok ⊢
  rw [same_sender, same_writes]
  cases pc : state.sender.pc with
  | top | poll | drain | clear | failed =>
      rw [pc] at ok
      exact ok
  | size =>
      rw [pc] at ok
      obtain ⟨counter, payload, slice⟩ := ok
      exact ⟨counter, payload, slice_kept payload slice⟩
  | ready =>
      rw [pc] at ok
      exact ⟨ok.1, slice_kept _ ok.2⟩
  | tag | target =>
      rw [pc] at ok
      exact ⟨ok.1, slice_kept _ ok.2.1, credit_kept ok.2.2⟩
  | next | post =>
      rw [pc] at ok
      exact ⟨ok.1, slice_kept _ ok.2.1, credit_kept ok.2.2.1, ok.2.2.2⟩

theorem RecvOk.frame {edge : Edge} {state next : State} {released later : ℕ}
    (ok : RecvOk edge state released) (same_receiver : next.receiver = state.receiver)
    (same_cts : next.ctsWrites = state.ctsWrites) (same_shadow : next.shadow = state.shadow)
    (same_recvWrs : next.recvWrs = state.recvWrs) (forward : released ≤ later) :
    RecvOk edge next later := by
  unfold RecvOk at ok ⊢
  rw [same_receiver, same_cts, same_shadow, same_recvWrs]
  cases pc : state.receiver.pc with
  | ctsShadow | immPost =>
      rw [pc] at ok
      exact ok.trans_le (by omega)
  | ctsPost =>
      rw [pc] at ok
      exact ⟨ok.1.trans_le (by omega), ok.2⟩
  | failed =>
      rw [pc] at ok
      exact ok
  | ctsTest | immTest | poll | drain | storeTail => trivial

/-! ### Producer and consumer -/

section Steps

variable {edge : Edge} {state : State} {completed tailed released : ℕ}

/-- A new state of the send FIFO, with its head where the send proxy put it. -/
theorem Inv.setSendFifo (inv : Inv edge state completed tailed released) {fifo : SendFifo}
    (holds : fifo.Holds edge completed) (grown : state.sendFifo.published <+: fifo.published) :
    Inv edge { state with sendFifo := fifo } completed tailed released :=
  { inv with
    sendFifo := holds
    recvFifo := inv.recvFifo.extend grown
    writes := inv.writes.mono (Carries.extend grown)
    arrivals := inv.arrivals.mono (Arrives.extend grown)
    sender := inv.sender.frame rfl rfl grown le_rfl fun _ => rfl }

/-- A new state of the receive FIFO, after a move of the consumer. -/
theorem Inv.setRecvFifo (inv : Inv edge state completed tailed released) {fifo : RecvFifo}
    {later : ℕ} (forward : released ≤ later)
    (holds : fifo.Holds edge state.sendFifo.published later tailed
      (tailed + state.receiver.pc.stored) state.executed) :
    Inv edge { state with recvFifo := fifo } completed tailed later :=
  { inv with
    recvFifo := holds
    ctsWrites_le := inv.ctsWrites_le.trans (by omega)
    recvWrs_le := inv.recvWrs_le.trans (by omega)
    sender := inv.sender.frame rfl rfl (List.prefix_refl _) le_rfl fun _ => rfl
    receiver := inv.receiver.frame rfl rfl rfl rfl forward }

/-! ### The network -/

/-- The CTS write in flight carries the credit of its own slice, inline or from the shadow. -/
theorem Inv.delivered_slot (inv : Inv edge state completed tailed released) {wr : CtsWr}
    (found : state.ctsWrites[state.ctsDelivered]? = some wr) :
    wr.slot = edge.slot (edge.step state.ctsDelivered) ∧
      wr.inlined.getD (state.shadow wr.slot) = ctsOf edge (edge.step state.ctsDelivered) := by
  have inside : state.ctsDelivered < state.ctsWrites.length :=
    (List.getElem?_eq_some_iff.mp found).1
  have grants := inv.ctsWrites.get found
  rw [Nat.zero_add] at grants
  obtain ⟨-, slot, fetched | inlined⟩ := grants
  · refine ⟨slot, ?_⟩
    rw [fetched, slot]
    exact inv.shadow _ le_rfl inside
  · refine ⟨slot, ?_⟩
    rw [inlined]
    rfl

theorem Inv.deliverCts (inv : Inv edge state completed tailed released) {next : State}
    (step : deliverCts state = some next) : Inv edge next completed tailed released := by
  unfold WriteCts.deliverCts at step
  split at step
  · cases step
  case h_2 wr found =>
    obtain rfl := Option.some.inj step
    have inside : state.ctsDelivered < state.ctsWrites.length :=
      (List.getElem?_eq_some_iff.mp found).1
    obtain ⟨slot, content⟩ := inv.delivered_slot found
    rw [content, slot]
    have window := inv.ctsWrites_le
    have consumed := inv.recvFifo.released_le
    have ordered := inv.recvFifo.tailed_le.trans inv.recvFifo.sized_le
    have executed := inv.executed_le
    refine { inv with writes_le := ?_, delivered_le := inside, shadow := ?_, cts := ?_,
                      sender := ?_, receiver := inv.receiver.frame rfl rfl rfl rfl le_rfl }
    · exact inv.writes_le.trans (Nat.le_succ _)
    · intro k pending posted
      exact inv.shadow k (Nat.le_of_succ_le pending) posted
    · intro place ready
      by_cases here : place = edge.slot (edge.step state.ctsDelivered)
      · subst here
        refine ⟨state.ctsDelivered, Nat.lt_succ_self _, rfl, ?_, Or.inl inv.writes_le⟩
        exact Function.update_self _ _ _
      · simp only [Function.update_of_ne here] at ready ⊢
        obtain ⟨k, older, rest⟩ := inv.cts place ready
        exact ⟨k, older.trans (Nat.lt_succ_self _), rest⟩
    · refine inv.sender.frame rfl rfl (List.prefix_refl _) (Nat.le_succ _) ?_
      intro granted
      refine Function.update_of_ne ?_ _ _
      exact edge.slot_ne released (by omega) (by omega) (by omega) (by omega) (by omega)

theorem Inv.ackCts (inv : Inv edge state completed tailed released) {next : State}
    (step : ackCts state = some next) : Inv edge next completed tailed released := by
  unfold WriteCts.ackCts at step
  split_ifs at step
  split at step
  · cases step
  case h_2 wr found =>
    obtain rfl := Option.some.inj step
    have same : (if wr.signaled then state.recvCq ++ [.cts wr.wrId] else state.recvCq).filterMap
        RecvWc.imm? = state.recvCq.filterMap RecvWc.imm? := by
      split
      · simp [RecvWc.imm?]
      · rfl
    refine { inv with arrivals := ?_, arrivals_length := ?_,
                      sender := inv.sender.frame rfl rfl (List.prefix_refl _) le_rfl fun _ => rfl
                      receiver := inv.receiver.frame rfl rfl rfl rfl le_rfl }
    · simp only [same]
      exact inv.arrivals
    · simp only [same]
      exact inv.arrivals_length

/-- The data of the WRITE in flight is the slice published at its place. -/
theorem Inv.executed_slice (inv : Inv edge state completed tailed released) {wr : WriteWr}
    (found : state.writes[state.executed]? = some wr) :
    wr.wrId = edge.step state.executed ∧
      wr.remoteAddr = edge.recvAddr (edge.slot (edge.step state.executed)) ∧
      ∃ slice, state.sendFifo.published[state.executed]? = some slice ∧
        wr.length = slice.length ∧ wr.immData = swapBytes32 slice.length ∧
        Memory.block state.sendFifo.data wr.addr wr.length = slice := by
  have carries := inv.writes.get found
  rw [Nat.zero_add] at carries
  obtain ⟨wrId, addr, remoteAddr, slice, published, length, immData⟩ := carries
  refine ⟨wrId, remoteAddr, slice, published, length, immData, ?_⟩
  rw [addr, length]
  exact (inv.sendFifo.stored _ _ inv.completed_le published).2

/-- A WRITE in flight has its slot free. -/
theorem Inv.executed_room (inv : Inv edge state completed tailed released)
    (pending : state.executed < state.writes.length) :
    state.executed < released + edge.maxInflight := by
  have := inv.writes_le
  have := inv.delivered_le
  have := inv.ctsWrites_le
  omega

theorem Inv.executeWrite (inv : Inv edge state completed tailed released) {next : State}
    (step : executeWrite state = some next) : Inv edge next completed tailed released := by
  unfold WriteCts.executeWrite at step
  split at step
  case h_2 => cases step
  case h_1 wr recvWrId posted waiting =>
    obtain rfl := Option.some.inj step
    have pending : state.executed < state.writes.length := (List.getElem?_eq_some_iff.mp posted).1
    have waits : state.executed < state.recvWrs.length := (List.getElem?_eq_some_iff.mp waiting).1
    obtain ⟨wrId, remoteAddr, slice, published, length, immData, bytes⟩ := inv.executed_slice posted
    have consumes := inv.recvWrs.get waiting
    rw [Nat.zero_add] at consumes
    rw [bytes, remoteAddr, immData, wrId, consumes]
    refine { inv with
      recvFifo := inv.recvFifo.land (inv.executed_room pending) inv.sendFifo.publishable published
      completed_le := inv.completed_le.trans (Nat.le_succ _)
      executed_le := pending
      executed_le_recvWrs := waits
      sendCq := inv.sendCq.execute wr.signaled
      arrivals := ?_
      arrivals_length := ?_
      sender := inv.sender.frame rfl rfl (List.prefix_refl _) le_rfl fun _ => rfl
      receiver := inv.receiver.frame rfl rfl rfl rfl le_rfl }
    · simp only [List.filterMap_append, List.filterMap_cons, RecvWc.imm?, List.filterMap_nil]
      apply inv.arrivals.concat
      rw [inv.arrivals_length]
      exact ⟨rfl, slice, published, rfl⟩
    · have counted := inv.arrivals_length
      simp only [List.filterMap_append, List.filterMap_cons, RecvWc.imm?, List.filterMap_nil,
        List.length_append, List.length_singleton]
      omega

/-! ### The send proxy -/

theorem Inv.sendGoto (inv : Inv edge state completed tailed released) {pc : SendPc}
    (not_clear : state.sender.pc ≠ .clear) (ok : SendOk edge (state.sendGoto pc)) :
    Inv edge (state.sendGoto pc) completed tailed released := by
  refine { inv with sender := ok, cts := ?_,
                    receiver := inv.receiver.frame rfl rfl rfl rfl le_rfl }
  intro slot ready
  obtain ⟨k, delivered, place, content, unposted | ⟨clearing, -⟩⟩ := inv.cts slot ready
  · exact ⟨k, delivered, place, content, Or.inl unposted⟩
  · exact absurd clearing not_clear

theorem Inv.completed_le_writes (inv : Inv edge state completed tailed released) :
    completed ≤ state.writes.length :=
  inv.completed_le.trans inv.executed_le

/-- Slices not released by the consumer are at most one window old. -/
theorem Inv.released_le_writes (inv : Inv edge state completed tailed released) :
    released ≤ state.writes.length := by
  have := inv.recvFifo.released_le
  have := inv.recvFifo.tailed_le
  have := inv.recvFifo.sized_le
  have := inv.executed_le
  omega

/-- A raised slot of the next slice to post carries that slice's own CTS. -/
theorem Inv.nextCredit (inv : Inv edge state completed tailed released)
    (not_clear : state.sender.pc ≠ .clear)
    (ready : (state.cts (edge.slot (edge.step state.writes.length))).ready = 1) :
    state.NextCredit edge := by
  obtain ⟨k, delivered, place, content, unposted | ⟨clearing, -⟩⟩ := inv.cts _ ready
  · have released_le := inv.released_le_writes
    have delivered_le := inv.delivered_le
    have window := inv.ctsWrites_le
    have same : k = state.writes.length := by
      by_contra distinct
      exact edge.slot_ne released distinct (by omega) (by omega) released_le (by omega) place.symm
    subst same
    exact ⟨delivered, content⟩
  · exact absurd clearing not_clear

theorem Inv.send_size (inv : Inv edge state completed tailed released) {tail : ℕ}
    (pc : state.sender.pc = .size tail) {next : State} (step : sendStep edge state = some next) :
    Inv edge next completed tailed released := by
  have ok := inv.sender
  simp only [SendOk, pc] at ok
  obtain ⟨counter, payload, slice, found, rfl⟩ := ok
  have size := inv.sendFifo.size_eq inv.completed_le_writes found
  obtain ⟨nonempty, small, -⟩ := inv.sendFifo.publishable slice (List.mem_of_getElem? found)
  have below : edge.slot state.sender.nextPostStep < edge.slotCount :=
    Nat.mod_lt _ edge.slotCount_pos
  simp only [sendStep, pc] at step
  rw [counter] at below
  rw [counter, size, if_neg (by omega), if_neg (by omega), if_neg (by omega)] at step
  obtain rfl := Option.some.inj step
  exact inv.sendGoto (by simp [pc]) ⟨counter, slice, found, rfl⟩

theorem Inv.send_ready (inv : Inv edge state completed tailed released) {tail payload : ℕ}
    (pc : state.sender.pc = .ready tail payload) {next : State}
    (step : sendStep edge state = some next) : Inv edge next completed tailed released := by
  have ok := inv.sender
  simp only [SendOk, pc] at ok
  obtain ⟨counter, slice⟩ := ok
  simp only [sendStep, pc, counter] at step
  split_ifs at step with ready
  · obtain rfl := Option.some.inj step
    exact inv.sendGoto (by simp [pc]) ⟨counter, slice, inv.nextCredit (by simp [pc]) ready⟩
  · obtain rfl := Option.some.inj step
    exact inv.sendGoto (by simp [pc]) counter

theorem Inv.send_tag (inv : Inv edge state completed tailed released) {tail payload : ℕ}
    (pc : state.sender.pc = .tag tail payload) {next : State}
    (step : sendStep edge state = some next) : Inv edge next completed tailed released := by
  have ok := inv.sender
  simp only [SendOk, pc] at ok
  obtain ⟨counter, slice, credit⟩ := ok
  simp only [sendStep, pc, counter, credit.2, ctsOf, if_true] at step
  obtain rfl := Option.some.inj step
  exact inv.sendGoto (by simp [pc]) ⟨counter, slice, credit⟩

theorem Inv.send_target (inv : Inv edge state completed tailed released) {tail payload : ℕ}
    (pc : state.sender.pc = .target tail payload) {next : State}
    (step : sendStep edge state = some next) : Inv edge next completed tailed released := by
  have ok := inv.sender
  simp only [SendOk, pc] at ok
  obtain ⟨counter, slice, credit⟩ := ok
  simp only [sendStep, pc, counter, credit.2] at step
  split_ifs at step with refused
  · obtain rfl := Option.some.inj step
    refine inv.sendGoto (by simp [pc]) ⟨by simp, fun _ => ?_⟩
    obtain ⟨bytes, found, rfl⟩ := slice
    obtain ⟨-, small, -⟩ := inv.sendFifo.publishable bytes (List.mem_of_getElem? found)
    have place := edge.recvData_ne
    -- The address is never zero, so the capacity must have lost its high bits.
    by_contra short
    simp only [ctsOf, Edge.recvAddr] at refused
    rw [Nat.mod_eq_of_lt (by omega)] at refused
    omega
  · obtain rfl := Option.some.inj step
    exact inv.sendGoto (by simp [pc]) ⟨counter, slice, credit, rfl⟩

theorem Inv.send_post (inv : Inv edge state completed tailed released)
    {tail payload remoteAddr rkey : ℕ} {nextZeroNeedsHead : Bool}
    (pc : state.sender.pc = .post tail payload remoteAddr rkey nextZeroNeedsHead) {next : State}
    (step : sendStep edge state = some next) : Inv edge next completed tailed released := by
  have ok := inv.sender
  simp only [SendOk, pc] at ok
  obtain ⟨counter, ⟨slice, found, rfl⟩, ⟨granted, -⟩, rfl⟩ := ok
  simp only [sendStep, pc, counter] at step
  obtain rfl := Option.some.inj step
  refine { inv with executed_le := ?_, writes_le := ?_, writes := ?_, cts := ?_,
                    nextCompleteStep := inv.nextCompleteStep, sender := ?_,
                    receiver := inv.receiver.frame rfl rfl rfl rfl le_rfl }
  · simp only [List.length_append, List.length_singleton]
    exact inv.executed_le.trans (Nat.le_succ _)
  · simp only [List.length_append, List.length_singleton]
    exact granted
  · apply inv.writes.concat
    rw [Nat.zero_add]
    exact ⟨rfl, rfl, rfl, slice, found, rfl, rfl⟩
  · intro slot ready
    obtain ⟨k, delivered, place, content, unposted | ⟨clearing, -⟩⟩ := inv.cts slot ready
    · refine ⟨k, delivered, place, content, ?_⟩
      simp only [List.length_append, List.length_singleton]
      rcases unposted.eq_or_lt with same | later
      · exact Or.inr ⟨trivial, by omega⟩
      · exact Or.inl later
    · simp [pc] at clearing
  · exact ⟨state.writes.length, by simp, rfl⟩

theorem Inv.send_clear (inv : Inv edge state completed tailed released)
    (pc : state.sender.pc = .clear) {next : State} (step : sendStep edge state = some next) :
    Inv edge next completed tailed released := by
  have ok := inv.sender
  simp only [SendOk, pc] at ok
  obtain ⟨last, posted, counter⟩ := ok
  simp only [sendStep, pc, counter] at step
  obtain rfl := Option.some.inj step
  refine { inv with cts := ?_, sender := ?_,
                    receiver := inv.receiver.frame rfl rfl rfl rfl le_rfl }
  · intro slot ready
    have elsewhere : slot ≠ edge.slot (edge.step last) := by
      rintro rfl
      simp at ready
    simp only [Function.update_of_ne elsewhere] at ready ⊢
    obtain ⟨k, delivered, place, content, unposted | ⟨-, same⟩⟩ := inv.cts slot ready
    · exact ⟨k, delivered, place, content, Or.inl unposted⟩
    · obtain rfl : k = last := by omega
      exact absurd place elsewhere
  · show edge.step last + edge.stepIncrement = edge.step state.writes.length
    rw [edge.step_succ, posted]

/-- A completion releases slices that are executed. -/
theorem Inv.send_drain (inv : Inv edge state completed tailed released) {left : ℕ}
    (pc : state.sender.pc = .drain (left + 1)) {next : State}
    (step : sendStep edge state = some next) : ∃ later, Inv edge next later tailed released := by
  have ok := inv.sender
  simp only [SendOk, pc] at ok
  simp only [sendStep, pc] at step
  split at step
  · cases step
  case h_2 wrId later pending =>
    split at step
    · obtain rfl := Option.some.inj step
      exact ⟨completed, inv.sendGoto (by simp [pc]) (by simp [SendOk, State.sendGoto])⟩
    case h_2 nextCompleteStep inflight accepted =>
      obtain rfl := Option.some.inj step
      rw [inv.nextCompleteStep] at accepted
      obtain ⟨more, executed, next, holds, completes⟩ :=
        inv.sendFifo.complete inv.recvFifo.landed_le (pending ▸ inv.sendCq) accepted
      have moved : Inv edge (state.sendGoto (.drain left)) completed tailed released :=
        inv.sendGoto (by simp [pc]) ok
      exact ⟨more, { moved with
        sendFifo := holds
        completed_le := executed
        sendCq := completes
        nextCompleteStep := next
        sender := ok
        receiver := inv.receiver.frame rfl rfl rfl rfl le_rfl }⟩

theorem Inv.send (inv : Inv edge state completed tailed released) {next : State}
    (step : sendStep edge state = some next) : ∃ later, Inv edge next later tailed released := by
  have ok := inv.sender
  cases pc : state.sender.pc with
  | top =>
      simp only [SendOk, pc] at ok
      simp only [sendStep, pc] at step
      split_ifs at step with pending
      · obtain rfl := Option.some.inj step
        have below := pending.2
        rw [ok] at below
        obtain ⟨slice, found⟩ := inv.sendFifo.exists_published below
        exact ⟨completed, inv.sendGoto (by simp [pc]) ⟨ok, slice.length, slice, found, rfl⟩⟩
      · obtain rfl := Option.some.inj step
        exact ⟨completed, inv.sendGoto (by simp [pc]) ok⟩
  | size => exact ⟨completed, inv.send_size pc step⟩
  | ready => exact ⟨completed, inv.send_ready pc step⟩
  | tag => exact ⟨completed, inv.send_tag pc step⟩
  | target => exact ⟨completed, inv.send_target pc step⟩
  | next =>
      simp only [SendOk, pc] at ok
      simp only [sendStep, pc] at step
      obtain rfl := Option.some.inj step
      exact ⟨completed, inv.sendGoto (by simp [pc]) ok⟩
  | post => exact ⟨completed, inv.send_post pc step⟩
  | clear => exact ⟨completed, inv.send_clear pc step⟩
  | poll | failed => simp [sendStep, pc] at step
  | drain left =>
      cases left with
      | zero =>
          simp only [SendOk, pc] at ok
          simp only [sendStep, pc] at step
          obtain rfl := Option.some.inj step
          exact ⟨completed, inv.sendGoto (by simp [pc]) ok⟩
      | succ left => exact inv.send_drain pc step

theorem Inv.pollSend (inv : Inv edge state completed tailed released) {count : ℕ} {next : State}
    (step : pollSend state count = some next) : Inv edge next completed tailed released := by
  unfold WriteCts.pollSend at step
  split_ifs at step with guard
  obtain rfl := Option.some.inj step
  have ok := inv.sender
  simp only [SendOk, guard.1] at ok
  exact inv.sendGoto (by simp [guard.1]) ok

/-! ### The receive proxy -/

theorem Inv.recvGoto (inv : Inv edge state completed tailed released) {pc : RecvPc}
    (same_stored : pc.stored = state.receiver.pc.stored)
    (ok : RecvOk edge (state.recvGoto pc) released) :
    Inv edge (state.recvGoto pc) completed tailed released := by
  have stored : (state.recvGoto pc).receiver.pc.stored = state.receiver.pc.stored := same_stored
  refine { inv with
    recvFifo := ?_
    arrivals := ?_
    arrivals_length := ?_
    sender := inv.sender.frame rfl rfl (List.prefix_refl _) le_rfl fun _ => rfl
    receiver := ok }
  · rw [stored]
    exact inv.recvFifo
  · rw [stored]
    exact inv.arrivals
  · rw [stored]
    exact inv.arrivals_length

/-- The credit test of the receive proxy, in slices. -/
theorem Inv.credit_iff (inv : Inv edge state completed tailed released) (k : ℕ) :
    state.credit edge (edge.step k) ↔ k < released + edge.maxInflight := by
  unfold State.credit
  rw [inv.recvFifo.head]
  exact edge.credit_iff k released

theorem Inv.recv_ctsTest (inv : Inv edge state completed tailed released)
    (pc : state.receiver.pc = .ctsTest) {next : State} (step : recvStep edge state = some next) :
    Inv edge next completed tailed released := by
  simp only [recvStep, pc, inv.recvNextCts, inv.credit_iff] at step
  split_ifs at step with admitted prepared
  · obtain rfl := Option.some.inj step
    exact inv.recvGoto (by simp [pc, RecvPc.stored]) admitted.2
  · obtain rfl := Option.some.inj step
    exact inv.recvGoto (by simp [pc, RecvPc.stored]) trivial
  · obtain rfl := Option.some.inj step
    have same : state.receiver.pc.stored = 0 := by simp [pc, RecvPc.stored]
    have recvFifo := inv.recvFifo
    have arrivals := inv.arrivals
    have counted := inv.arrivals_length
    rw [same] at recvFifo arrivals counted
    exact { inv with
      recvFifo := recvFifo
      arrivals := arrivals
      arrivals_length := counted
      recvNextCts := rfl
      sender := inv.sender.frame rfl rfl (List.prefix_refl _) le_rfl fun _ => rfl
      receiver := trivial }

theorem Inv.recv_ctsShadow (inv : Inv edge state completed tailed released)
    (pc : state.receiver.pc = .ctsShadow) {next : State} (step : recvStep edge state = some next) :
    Inv edge next completed tailed released := by
  have ok := inv.receiver
  simp only [RecvOk, pc] at ok
  simp only [recvStep, pc, inv.recvNextCts] at step
  obtain rfl := Option.some.inj step
  have moved : Inv edge (state.recvGoto .immTest) completed tailed released :=
    inv.recvGoto (by simp [pc, RecvPc.stored]) trivial
  have released_le := inv.released_le_writes
  have writes_le := inv.writes_le
  refine { moved with
    shadow := ?_
    sender := inv.sender.frame rfl rfl (List.prefix_refl _) le_rfl fun _ => rfl
    receiver := ⟨ok, Function.update_self _ _ _⟩ }
  intro k pending posted
  have apart : edge.slot (edge.step k) ≠ edge.slot (edge.step state.ctsWrites.length) :=
    edge.slot_ne released posted.ne ((released_le.trans writes_le).trans pending)
      (posted.trans ok) ((released_le.trans writes_le).trans inv.delivered_le) ok
  exact (Function.update_of_ne apart _ _).trans (inv.shadow k pending posted)

theorem Inv.recv_ctsPost (inv : Inv edge state completed tailed released)
    (pc : state.receiver.pc = .ctsPost) {next : State} (step : recvStep edge state = some next) :
    Inv edge next completed tailed released := by
  have ok := inv.receiver
  simp only [RecvOk, pc] at ok
  obtain ⟨room, written⟩ := ok
  simp only [recvStep, pc, inv.recvNextCts, written] at step
  obtain rfl := Option.some.inj step
  have moved : Inv edge (state.recvGoto .ctsTest) completed tailed released :=
    inv.recvGoto (by simp [pc, RecvPc.stored]) trivial
  refine { moved with
    delivered_le := ?_
    ctsWrites_le := ?_
    ctsWrites := ?_
    shadow := ?_
    recvNextCts := ?_
    sender := inv.sender.frame rfl rfl (List.prefix_refl _) le_rfl fun _ => rfl
    receiver := trivial }
  · simp only [List.length_append, List.length_singleton]
    exact inv.delivered_le.trans (Nat.le_succ _)
  · simp only [List.length_append, List.length_singleton]
    exact room
  · apply inv.ctsWrites.concat
    rw [Nat.zero_add]
    refine ⟨rfl, rfl, ?_⟩
    by_cases inlined : edge.inlineCts = true
    · exact Or.inr (if_pos inlined)
    · exact Or.inl (if_neg inlined)
  · intro k pending posted
    simp only [List.length_append, List.length_singleton] at posted
    rcases Nat.lt_succ_iff_lt_or_eq.mp posted with older | rfl
    · exact inv.shadow k pending older
    · exact written
  · simp only [List.length_append, List.length_singleton]
    exact edge.step_succ _

theorem Inv.recv_immTest (inv : Inv edge state completed tailed released)
    (pc : state.receiver.pc = .immTest) {next : State} (step : recvStep edge state = some next) :
    Inv edge next completed tailed released := by
  simp only [recvStep, pc, inv.recvNextPost, inv.credit_iff] at step
  split_ifs at step with admitted prepared
  · obtain rfl := Option.some.inj step
    exact inv.recvGoto (by simp [pc, RecvPc.stored]) admitted.2
  · obtain rfl := Option.some.inj step
    exact inv.recvGoto (by simp [pc, RecvPc.stored]) trivial
  · obtain rfl := Option.some.inj step
    exact inv.recvGoto (by simp [pc, RecvPc.stored]) trivial

theorem Inv.recv_immPost (inv : Inv edge state completed tailed released)
    (pc : state.receiver.pc = .immPost) {next : State} (step : recvStep edge state = some next) :
    Inv edge next completed tailed released := by
  have room := inv.receiver
  simp only [RecvOk, pc] at room
  simp only [recvStep, pc, inv.recvNextPost] at step
  obtain rfl := Option.some.inj step
  have moved : Inv edge (state.recvGoto .immTest) completed tailed released :=
    inv.recvGoto (by simp [pc, RecvPc.stored]) trivial
  refine { moved with
    executed_le_recvWrs := ?_
    recvWrs_le := ?_
    recvWrs := ?_
    recvNextPost := ?_
    sender := inv.sender.frame rfl rfl (List.prefix_refl _) le_rfl fun _ => rfl
    receiver := trivial }
  · simp only [List.length_append, List.length_singleton]
    exact inv.executed_le_recvWrs.trans (Nat.le_succ _)
  · simp only [List.length_append, List.length_singleton]
    exact room
  · apply inv.recvWrs.concat
    rw [Nat.zero_add]
  · simp only [List.length_append, List.length_singleton]
    exact edge.step_succ _

/-- A CTS completion only moves the receiver's own counters. -/
theorem Inv.drain_cts (inv : Inv edge state completed tailed released) {left step : ℕ}
    {later : List RecvWc} (pc : state.receiver.pc = .drain (left + 1))
    (pending : state.recvCq = .cts step :: later) :
    Inv edge (drainRecv edge { state with recvCq := later } left (.cts step))
      completed tailed released := by
  have arrivals := inv.arrivals
  have counted := inv.arrivals_length
  simp only [pending, List.filterMap_cons, RecvWc.imm?, pc, RecvPc.stored] at arrivals counted
  have recvFifo := inv.recvFifo
  simp only [pc, RecvPc.stored] at recvFifo
  unfold drainRecv
  dsimp only
  split
  all_goals
    exact { inv with
      recvFifo := recvFifo
      arrivals := arrivals
      arrivals_length := counted
      sender := inv.sender.frame rfl rfl (List.prefix_refl _) le_rfl fun _ => rfl
      receiver := by simp [RecvOk, State.recvGoto] }

/-- A data completion is the next slice, and its size is stored. -/
theorem Inv.drain_imm (inv : Inv edge state completed tailed released) {left step immData : ℕ}
    {later : List RecvWc} (pc : state.receiver.pc = .drain (left + 1))
    (pending : state.recvCq = .imm step immData :: later) :
    Inv edge (drainRecv edge { state with recvCq := later } left (.imm step immData))
      completed tailed released := by
  have arrivals := inv.arrivals
  have counted := inv.arrivals_length
  have recvFifo := inv.recvFifo
  simp only [pending, List.filterMap_cons, RecvWc.imm?, pc, RecvPc.stored, Nat.add_zero,
    List.length_cons] at arrivals counted recvFifo
  obtain ⟨⟨rfl, slice, found, rfl⟩, rest⟩ := arrivals
  obtain ⟨-, small, short⟩ := inv.sendFifo.publishable slice (List.mem_of_getElem? found)
  unfold drainRecv
  dsimp only
  rw [if_neg (by simp [inv.recvNextComplete]), swapBytes32_swapBytes32 short,
    if_neg (by omega)]
  exact { inv with
    recvFifo := recvFifo.storeSize (by omega) found
    arrivals := rest
    arrivals_length := by
      show tailed + 1 + (later.filterMap RecvWc.imm?).length = state.executed
      omega
    sender := inv.sender.frame rfl rfl (List.prefix_refl _) le_rfl fun _ => rfl
    receiver := trivial }

theorem Inv.recv_storeTail (inv : Inv edge state completed tailed released) {left : ℕ}
    (pc : state.receiver.pc = .storeTail left) {next : State}
    (step : recvStep edge state = some next) : Inv edge next completed (tailed + 1) released := by
  have arrivals := inv.arrivals
  have counted := inv.arrivals_length
  have recvFifo := inv.recvFifo
  simp only [pc, RecvPc.stored] at arrivals counted recvFifo
  simp only [recvStep, pc, inv.recvNextComplete, edge.step_succ] at step
  obtain rfl := Option.some.inj step
  exact { inv with
    recvFifo := recvFifo.publishTail (Nat.lt_succ_self _)
    arrivals := arrivals
    arrivals_length := counted
    recvNextComplete := rfl
    sender := inv.sender.frame rfl rfl (List.prefix_refl _) le_rfl fun _ => rfl
    receiver := trivial }

theorem Inv.recv (inv : Inv edge state completed tailed released) {next : State}
    (step : recvStep edge state = some next) : ∃ later, Inv edge next completed later released := by
  cases pc : state.receiver.pc with
  | ctsTest => exact ⟨tailed, inv.recv_ctsTest pc step⟩
  | ctsShadow => exact ⟨tailed, inv.recv_ctsShadow pc step⟩
  | ctsPost => exact ⟨tailed, inv.recv_ctsPost pc step⟩
  | immTest => exact ⟨tailed, inv.recv_immTest pc step⟩
  | immPost => exact ⟨tailed, inv.recv_immPost pc step⟩
  | poll | failed => simp [recvStep, pc] at step
  | drain left =>
      cases left with
      | zero =>
          simp only [recvStep, pc] at step
          obtain rfl := Option.some.inj step
          exact ⟨tailed, inv.recvGoto (by simp [pc, RecvPc.stored]) trivial⟩
      | succ left =>
          simp only [recvStep, pc] at step
          split at step
          · cases step
          case h_2 wc later pending =>
            obtain rfl := Option.some.inj step
            cases wc with
            | cts => exact ⟨tailed, inv.drain_cts pc pending⟩
            | imm => exact ⟨tailed, inv.drain_imm pc pending⟩
  | storeTail => exact ⟨tailed + 1, inv.recv_storeTail pc step⟩

theorem Inv.pollRecv (inv : Inv edge state completed tailed released) {count : ℕ} {next : State}
    (step : pollRecv state count = some next) : Inv edge next completed tailed released := by
  unfold WriteCts.pollRecv at step
  split_ifs at step with guard
  obtain rfl := Option.some.inj step
  exact inv.recvGoto (by simp [guard.1, RecvPc.stored]) trivial

end Steps

/-! ### Runs -/

/-- The joint invariant, with the progress counts hidden. -/
def Good (edge : Edge) (state : State) : Prop :=
  ∃ completed tailed released, Inv edge state completed tailed released

theorem good_step {edge : Edge} {state next : State} (label : Label) (good : Good edge state)
    (taken : step edge state label = some next) : Good edge next := by
  obtain ⟨completed, tailed, released, inv⟩ := good
  cases label with
  | fill payload =>
      obtain ⟨fifo, filled, rfl⟩ := Option.map_eq_some_iff.mp taken
      obtain ⟨holds, same, -⟩ := inv.sendFifo.fill filled
      exact ⟨completed, tailed, released, inv.setSendFifo holds (same ▸ List.prefix_refl _)⟩
  | publish =>
      obtain ⟨fifo, published, rfl⟩ := Option.map_eq_some_iff.mp taken
      obtain ⟨holds, grown, -⟩ := inv.sendFifo.publish published
      exact ⟨completed, tailed, released, inv.setSendFifo holds grown⟩
  | send =>
      obtain ⟨later, kept⟩ := inv.send taken
      exact ⟨later, tailed, released, kept⟩
  | pollSend count => exact ⟨completed, tailed, released, inv.pollSend taken⟩
  | recv =>
      obtain ⟨later, kept⟩ := inv.recv taken
      exact ⟨completed, later, released, kept⟩
  | pollRecv count => exact ⟨completed, tailed, released, inv.pollRecv taken⟩
  | deliverCts => exact ⟨completed, tailed, released, inv.deliverCts taken⟩
  | ackCts => exact ⟨completed, tailed, released, inv.ackCts taken⟩
  | executeWrite => exact ⟨completed, tailed, released, inv.executeWrite taken⟩
  | read =>
      obtain ⟨fifo, held, rfl⟩ := Option.map_eq_some_iff.mp taken
      exact ⟨completed, tailed, released, inv.setRecvFifo le_rfl (inv.recvFifo.read held).1⟩
  | release =>
      obtain ⟨fifo, held, rfl⟩ := Option.map_eq_some_iff.mp taken
      exact ⟨completed, tailed, released + 1,
        inv.setRecvFifo (Nat.le_succ _) (inv.recvFifo.release held)⟩

theorem Reachable.good {edge : Edge} {state : State} (reach : Reachable edge state) :
    Good edge state :=
  reach.invariant (Good edge) (fun _ label _ good taken => good_step label good taken)
    ⟨0, 0, 0, initial_inv edge⟩

end NanoNccl.Rdma.WriteCts
