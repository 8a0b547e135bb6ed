import NanoNccl.Lib.Execution
import NanoNccl.Rdma.Books
import NanoNccl.Rdma.SendRecv
import NanoNccl.Rdma.WriteCts

/-!
# Send proxies among arbitrary peers

Each send proxy alone with its surroundings: a producer that publishes slices of any size, a
network that executes the posted work requests in order at any time, and, in the WRITE+CTS plane,
CTS slots that anybody may overwrite at any time. Under these surroundings the books of both
`progress` functions stay exact, and their consistency checks never fail.
-/

namespace NanoNccl.Rdma

open Ledger StepSystem

/-! ### SEND/RECV -/

namespace SendRecv

/-- A SEND work request as the books see it. -/
def SendWr.request (wr : SendWr) : ℕ × Bool := (wr.wrId, wr.signaled)

/-- The books of the send proxy. -/
def State.sendView (state : State) : QueueView ℕ where
  nextPostStep := state.sender.nextPostStep
  nextCompleteStep := state.sender.nextCompleteStep
  inflight := state.sender.inflight
  requests := state.sends.map SendWr.request
  executed := state.executed
  completions := state.sendCq

/-- The network executes the next SEND; a signaled one adds its completion. -/
def completeSend (state : State) : Option State :=
  state.sends[state.executed]?.map fun wr =>
    { state with
      executed := state.executed + 1
      sendCq := if wr.signaled then state.sendCq ++ [wr.wrId] else state.sendCq }

/-- One move of the send proxy or of its surroundings. -/
inductive SenderLabel
  /-- The producer writes a slice of any size. -/
  | offer (payload : List UInt8)
  /-- The producer stores `send_tail`. -/
  | publish
  /-- The send proxy moves. -/
  | send
  /-- The send proxy polls. -/
  | poll (count : ℕ)
  /-- A SEND is executed. -/
  | execute
  deriving DecidableEq, Repr

/-- The transition function of a send proxy among its surroundings. -/
def senderStep (edge : Edge) (state : State) : SenderLabel → Option State
  | .offer payload =>
      (state.sendFifo.offer edge payload).map fun fifo => { state with sendFifo := fifo }
  | .publish => (state.sendFifo.publish edge).map fun fifo => { state with sendFifo := fifo }
  | .send => sendStep edge state
  | .poll count => pollSend state count
  | .execute => completeSend state

/-- What holds where the posting loop has seen room and a published slice. -/
def SenderPcFacts (edge : Edge) (state : State) : SendPc → Prop
  | .size tail | .next tail _ | .post tail _ _ =>
      state.sender.inflight < edge.maxInflight ∧ state.sender.nextPostStep < tail ∧
        tail ≤ state.sendFifo.tail
  | .failed (.completion _) => False
  | .top | .poll | .drain _ | .failed .payloadExceedsCapacity => True

/-- The books of the send proxy are exact. -/
structure SenderExact (edge : Edge) (state : State) (completed : ℕ) : Prop where
  books : SendExact edge state.sendFifo state.sendView completed
  pc : SenderPcFacts edge state state.sender.pc

theorem initial_senderExact (edge : Edge) : SenderExact edge (initial edge) 0 where
  books :=
    { sized := SendFifo.fresh_sized edge
      queue :=
        { complete := by simp [State.sendView, initial]
          post := by simp [State.sendView, initial]
          inflight_le := Nat.zero_le _
          queue := balanced_nil edge.step 0 }
      published := Nat.zero_le _ }
  pc := trivial

/-- The producer's moves do not concern the program counter. -/
theorem SenderPcFacts.frame {edge : Edge} {state next : State} {pc : SendPc}
    (facts : SenderPcFacts edge state pc) (same : next.sender = state.sender)
    (forward : state.sendFifo.tail ≤ next.sendFifo.tail) : SenderPcFacts edge next pc := by
  cases pc with
  | size tail | next tail payload | post tail payload zero =>
      rw [SenderPcFacts, same]
      exact ⟨facts.1, facts.2.1, facts.2.2.trans forward⟩
  | failed error => cases error <;> exact facts
  | top | poll | drain left => trivial

/-- What a step of the send proxy does to its books. -/
theorem sendStep_move {edge : Edge} {state next : State}
    (facts : SenderPcFacts edge state state.sender.pc) (step : sendStep edge state = some next) :
    SendMove edge state.sendFifo state.sendView next.sendFifo next.sendView ∧
      (SenderPcFacts edge next next.sender.pc ∨
        ∃ error, next.sender.pc = .failed (.completion error) ∧
          state.sendView.Refuses edge error) := by
  unfold sendStep at step
  cases at_pc : state.sender.pc with
  | top =>
      simp only [at_pc] at step
      split_ifs at step with room
      · exact Option.some.inj step ▸ ⟨.stay, .inl ⟨room.1, room.2, le_rfl⟩⟩
      · exact Option.some.inj step ▸ ⟨.stay, .inl trivial⟩
  | size tail =>
      rw [at_pc] at facts
      obtain ⟨room, pending, current⟩ := facts
      simp only [at_pc] at step
      split_ifs at step with oversized empty behind
      · exact Option.some.inj step ▸ ⟨.stay, .inl trivial⟩
      · exact Option.some.inj step ▸ ⟨.stay, .inl trivial⟩
      · obtain rfl := Option.some.inj step
        exact ⟨.elide (not_not.mp behind) (pending.trans_le current) empty, .inl trivial⟩
      · exact Option.some.inj step ▸ ⟨.stay, .inl ⟨room, pending, current⟩⟩
  | next tail payload =>
      rw [at_pc] at facts
      simp only [at_pc, Option.some.injEq] at step
      subst step
      exact ⟨.stay, .inl facts⟩
  | post tail payload zero =>
      rw [at_pc] at facts
      obtain ⟨room, pending, current⟩ := facts
      simp only [at_pc, Option.some.injEq] at step
      subst step
      refine ⟨?_, .inl trivial⟩
      have posted : SendMove edge state.sendFifo state.sendView _ _ :=
        .post (signalsData edge state.sender.inflight tail state.sender.nextPostStep zero) room
          (pending.trans_le current)
      simpa [State.sendView, SendWr.request] using posted
  | poll => simp [at_pc] at step
  | drain left =>
      cases left with
      | zero =>
          simp only [at_pc, Option.some.injEq] at step
          subst step
          exact ⟨.stay, .inl trivial⟩
      | succ left =>
          simp only [at_pc] at step
          cases waiting : state.sendCq with
          | nil => simp [waiting] at step
          | cons id later =>
              simp only [waiting] at step
              split at step
              case h_1 error refused =>
                exact Option.some.inj step ▸ ⟨.stay, .inr ⟨error, rfl, id, later, waiting, refused⟩⟩
              case h_2 nextCompleteStep inflight accepted =>
                exact Option.some.inj step ▸ ⟨.complete waiting accepted, .inl trivial⟩
  | failed error => simp [at_pc] at step

/-- Every move of the send proxy keeps its books exact. -/
theorem SenderExact.send {edge : Edge} {state next : State} {completed : ℕ}
    (exact : SenderExact edge state completed) (step : sendStep edge state = some next) :
    ∃ later ≥ completed, SenderExact edge next later := by
  obtain ⟨moved, facts | ⟨error, -, refused⟩⟩ := sendStep_move exact.pc step
  · obtain ⟨later, forward, books⟩ := exact.books.move moved
    exact ⟨later, forward, books, facts⟩
  · exact absurd refused (exact.books.not_refuses error)

/-- Every move of the send proxy and of its surroundings keeps the books exact. -/
theorem SenderExact.step {edge : Edge} {state next : State} {completed : ℕ} {label : SenderLabel}
    (exact : SenderExact edge state completed) (taken : senderStep edge state label = some next) :
    ∃ later ≥ completed, SenderExact edge next later := by
  cases label with
  | offer payload =>
      obtain ⟨fifo, offered, rfl⟩ := Option.map_eq_some_iff.mp taken
      refine ⟨completed, le_rfl, exact.books.offer offered, exact.pc.frame rfl ?_⟩
      exact (exact.books.sized.offer offered).2.2.ge
  | publish =>
      obtain ⟨fifo, published, rfl⟩ := Option.map_eq_some_iff.mp taken
      refine ⟨completed, le_rfl, exact.books.publish published, exact.pc.frame rfl ?_⟩
      exact exact.books.sized.tail_le_of_publish published
  | send => exact exact.send taken
  | poll count =>
      simp only [senderStep, pollSend] at taken
      split_ifs at taken
      obtain rfl := Option.some.inj taken
      exact ⟨completed, le_rfl, exact.books, trivial⟩
  | execute =>
      obtain ⟨wr, found, rfl⟩ := Option.map_eq_some_iff.mp taken
      have request : state.sendView.requests[state.sendView.executed]? = some wr.request := by
        simp [State.sendView, found]
      have executed := exact.books.queue.execute request
      refine ⟨completed, le_rfl, ⟨exact.books.sized, executed, exact.books.published⟩, ?_⟩
      exact exact.pc.frame rfl le_rfl

theorem senderExact_of_reachable {edge : Edge} {state : State}
    (reach : StepSystem.Reachable (senderStep edge) (initial edge) state) :
    ∃ completed, SenderExact edge state completed := by
  refine reach.invariant (fun state => ∃ completed, SenderExact edge state completed) ?_
    ⟨0, initial_senderExact edge⟩
  rintro state label next ⟨completed, exact⟩ taken
  obtain ⟨later, -, kept⟩ := exact.step taken
  exact ⟨later, kept⟩

end SendRecv

/-! ### WRITE+CTS -/

namespace WriteCts

/-- A WRITE work request as the books see it. -/
def WriteWr.request (wr : WriteWr) : ℕ × Bool := (wr.wrId, wr.signaled)

/-- Work requests posted and not yet counted by `inflight_`. -/
def SendPc.uncounted : SendPc → ℕ
  | .clear => 1
  | .top | .size _ | .ready _ _ | .tag _ _ | .target _ _ | .next _ _ _ _ | .post _ _ _ _ _ | .poll
  | .drain _ | .failed _ => 0

/-- The books of the send proxy, with a WRITE counted from its post on. -/
def State.sendView (edge : Edge) (state : State) : QueueView ℕ where
  nextPostStep := state.sender.nextPostStep + edge.stepIncrement * state.sender.pc.uncounted
  nextCompleteStep := state.sender.nextCompleteStep
  inflight := state.sender.inflight + state.sender.pc.uncounted
  requests := state.writes.map WriteWr.request
  executed := state.executed
  completions := state.sendCq

theorem State.sendView_counted (edge : Edge) {state : State}
    (counted : state.sender.pc.uncounted = 0) :
    state.sendView edge =
      { nextPostStep := state.sender.nextPostStep
        nextCompleteStep := state.sender.nextCompleteStep
        inflight := state.sender.inflight
        requests := state.writes.map WriteWr.request
        executed := state.executed
        completions := state.sendCq } := by
  simp [State.sendView, counted]

/-- The network executes the next WRITE; a signaled one adds its completion. -/
def completeWrite (state : State) : Option State :=
  state.writes[state.executed]?.map fun wr =>
    { state with
      executed := state.executed + 1
      sendCq := if wr.signaled then state.sendCq ++ [wr.wrId] else state.sendCq }

/-- One move of the send proxy or of its surroundings. -/
inductive SenderLabel
  /-- The producer writes a slice of any size. -/
  | offer (payload : List UInt8)
  /-- The producer stores `send_tail`. -/
  | publish
  /-- The send proxy moves. -/
  | send
  /-- The send proxy polls. -/
  | poll (count : ℕ)
  /-- A WRITE is executed. -/
  | execute
  /-- A CTS slot is overwritten. -/
  | cts (slot : ℕ) (value : CtsSlot)
  deriving DecidableEq, Repr

/-- The transition function of a send proxy among its surroundings. -/
def senderStep (edge : Edge) (state : State) : SenderLabel → Option State
  | .offer payload =>
      (state.sendFifo.offer edge payload).map fun fifo => { state with sendFifo := fifo }
  | .publish => (state.sendFifo.publish edge).map fun fifo => { state with sendFifo := fifo }
  | .send => sendStep edge state
  | .poll count => pollSend state count
  | .execute => completeWrite state
  | .cts slot value => some { state with cts := Function.update state.cts slot value }

/-- What holds where the posting loop has seen room and a published slice. -/
def SenderPcFacts (edge : Edge) (state : State) : SendPc → Prop
  | .size tail | .ready tail _ | .tag tail _ | .target tail _ | .next tail _ _ _
  | .post tail _ _ _ _ =>
      state.sender.inflight < edge.maxInflight ∧ state.sender.nextPostStep < tail ∧
        tail ≤ state.sendFifo.tail
  | .failed (.completion _) => False
  | .top | .clear | .poll | .drain _ | .failed .payloadExceedsCapacity | .failed .slotExceedsCts
  | .failed .stepTagMismatch | .failed .targetInvalid => True

/-- The books of the send proxy are exact. -/
structure SenderExact (edge : Edge) (state : State) (completed : ℕ) : Prop where
  books : SendExact edge state.sendFifo (state.sendView edge) completed
  pc : SenderPcFacts edge state state.sender.pc

theorem initial_senderExact (edge : Edge) : SenderExact edge (initial edge) 0 where
  books :=
    { sized := SendFifo.fresh_sized edge
      queue :=
        { complete := by simp [State.sendView, initial]
          post := by simp [State.sendView, initial, SendPc.uncounted]
          inflight_le := Nat.zero_le _
          queue := balanced_nil edge.step 0 }
      published := Nat.zero_le _ }
  pc := trivial

/-- The moves of others do not concern the program counter. -/
theorem SenderPcFacts.frame {edge : Edge} {state next : State} {pc : SendPc}
    (facts : SenderPcFacts edge state pc) (same : next.sender = state.sender)
    (forward : state.sendFifo.tail ≤ next.sendFifo.tail) : SenderPcFacts edge next pc := by
  cases pc with
  | size | ready | tag | target | next | post =>
      rw [SenderPcFacts, same]
      exact ⟨facts.1, facts.2.1, facts.2.2.trans forward⟩
  | failed error => cases error <;> exact facts
  | top | clear | poll | drain => trivial

/-- A move that only changes the program counter, between points where every WRITE is counted. -/
theorem State.sendView_goto {edge : Edge} {state : State} {pc : SendPc}
    (before : state.sender.pc.uncounted = 0) (after : pc.uncounted = 0) :
    (state.sendGoto pc).sendView edge = state.sendView edge := by
  simp [State.sendView, State.sendGoto, before, after]

theorem sendMove_goto {edge : Edge} {state : State} {pc : SendPc}
    (before : state.sender.pc.uncounted = 0) (after : pc.uncounted = 0) :
    SendMove edge state.sendFifo (state.sendView edge) (state.sendGoto pc).sendFifo
      ((state.sendGoto pc).sendView edge) := by
  rw [State.sendView_goto before after]
  exact .stay

/-- What a step of the send proxy does to its books. -/
theorem sendStep_move {edge : Edge} {state next : State}
    (facts : SenderPcFacts edge state state.sender.pc) (step : sendStep edge state = some next) :
    SendMove edge state.sendFifo (state.sendView edge) next.sendFifo (next.sendView edge) ∧
      (SenderPcFacts edge next next.sender.pc ∨
        ∃ error, next.sender.pc = .failed (.completion error) ∧
          (state.sendView edge).Refuses edge error) := by
  unfold sendStep at step
  cases at_pc : state.sender.pc <;> rw [at_pc] at facts <;> simp only [at_pc] at step
  case clear =>
    obtain rfl := Option.some.inj step
    refine ⟨?_, .inl trivial⟩
    have same : SendMove edge state.sendFifo (state.sendView edge) state.sendFifo
        (state.sendView edge) := .stay
    simpa [State.sendView, SendPc.uncounted, at_pc] using same
  case poll | failed => cases step
  all_goals have counted : state.sender.pc.uncounted = 0 := by rw [at_pc]; rfl
  case top =>
    split_ifs at step with room
    · exact Option.some.inj step ▸ ⟨sendMove_goto counted rfl, .inl ⟨room.1, room.2, le_rfl⟩⟩
    · exact Option.some.inj step ▸ ⟨sendMove_goto counted rfl, .inl trivial⟩
  case size tail =>
    split_ifs at step with oversized empty behind outside
    · exact Option.some.inj step ▸ ⟨sendMove_goto counted rfl, .inl trivial⟩
    · exact Option.some.inj step ▸ ⟨sendMove_goto counted rfl, .inl trivial⟩
    · obtain rfl := Option.some.inj step
      rw [State.sendView_counted edge counted]
      exact ⟨.elide (not_not.mp behind) (facts.2.1.trans_le facts.2.2) empty, .inl trivial⟩
    · exact Option.some.inj step ▸ ⟨sendMove_goto counted rfl, .inl trivial⟩
    · exact Option.some.inj step ▸ ⟨sendMove_goto counted rfl, .inl facts⟩
  case ready | tag =>
    split_ifs at step
    · exact Option.some.inj step ▸ ⟨sendMove_goto counted rfl, .inl facts⟩
    · exact Option.some.inj step ▸ ⟨sendMove_goto counted rfl, .inl trivial⟩
  case target =>
    split_ifs at step
    · exact Option.some.inj step ▸ ⟨sendMove_goto counted rfl, .inl trivial⟩
    · exact Option.some.inj step ▸ ⟨sendMove_goto counted rfl, .inl facts⟩
  case next => exact Option.some.inj step ▸ ⟨sendMove_goto counted rfl, .inl facts⟩
  case post tail payload remoteAddr rkey zero =>
    obtain rfl := Option.some.inj step
    refine ⟨?_, .inl trivial⟩
    have view := State.sendView_counted edge counted
    have room : (state.sendView edge).inflight < edge.maxInflight := by
      rw [view]
      exact facts.1
    have pending : (state.sendView edge).nextPostStep < state.sendFifo.tail := by
      rw [view]
      exact facts.2.1.trans_le facts.2.2
    have posted : SendMove edge state.sendFifo (state.sendView edge) _ _ :=
      .post (signalsData edge state.sender.inflight tail state.sender.nextPostStep zero) room
        pending
    simpa [State.sendView, SendPc.uncounted, WriteWr.request, at_pc] using posted
  case drain left =>
    cases left with
    | zero => exact Option.some.inj step ▸ ⟨sendMove_goto counted rfl, .inl trivial⟩
    | succ left =>
        cases waiting : state.sendCq with
        | nil => simp [waiting] at step
        | cons id later =>
            simp only [waiting] at step
            split at step
            case h_1 error refused =>
              obtain rfl := Option.some.inj step
              refine ⟨sendMove_goto counted rfl, .inr ⟨error, rfl, ?_⟩⟩
              rw [State.sendView_counted edge counted]
              exact ⟨id, later, waiting, refused⟩
            case h_2 nextCompleteStep inflight accepted =>
              obtain rfl := Option.some.inj step
              rw [State.sendView_counted edge counted]
              exact ⟨.complete waiting accepted, .inl trivial⟩

/-- Every move of the send proxy keeps its books exact. -/
theorem SenderExact.send {edge : Edge} {state next : State} {completed : ℕ}
    (exact : SenderExact edge state completed) (step : sendStep edge state = some next) :
    ∃ later ≥ completed, SenderExact edge next later := by
  obtain ⟨moved, facts | ⟨error, -, refused⟩⟩ := sendStep_move exact.pc step
  · obtain ⟨later, forward, books⟩ := exact.books.move moved
    exact ⟨later, forward, books, facts⟩
  · exact absurd refused (exact.books.not_refuses error)

/-- Every move of the send proxy and of its surroundings keeps the books exact. -/
theorem SenderExact.step {edge : Edge} {state next : State} {completed : ℕ} {label : SenderLabel}
    (exact : SenderExact edge state completed) (taken : senderStep edge state label = some next) :
    ∃ later ≥ completed, SenderExact edge next later := by
  cases label with
  | offer payload =>
      obtain ⟨fifo, offered, rfl⟩ := Option.map_eq_some_iff.mp taken
      refine ⟨completed, le_rfl, exact.books.offer offered, exact.pc.frame rfl ?_⟩
      exact (exact.books.sized.offer offered).2.2.ge
  | publish =>
      obtain ⟨fifo, published, rfl⟩ := Option.map_eq_some_iff.mp taken
      refine ⟨completed, le_rfl, exact.books.publish published, exact.pc.frame rfl ?_⟩
      exact exact.books.sized.tail_le_of_publish published
  | send => exact exact.send taken
  | poll count =>
      simp only [senderStep, pollSend] at taken
      split_ifs at taken with ready
      obtain rfl := Option.some.inj taken
      refine ⟨completed, le_rfl, ?_, trivial⟩
      rw [State.sendView_goto (by rw [ready.1]; rfl) rfl]
      exact exact.books
  | execute =>
      obtain ⟨wr, found, rfl⟩ := Option.map_eq_some_iff.mp taken
      have request : (state.sendView edge).requests[(state.sendView edge).executed]? =
          some wr.request := by
        simp [State.sendView, found]
      have executed := exact.books.queue.execute request
      refine ⟨completed, le_rfl, ⟨exact.books.sized, executed, exact.books.published⟩, ?_⟩
      exact exact.pc.frame rfl le_rfl
  | cts slot value =>
      obtain rfl := Option.some.inj taken
      exact ⟨completed, le_rfl, exact.books, exact.pc.frame rfl le_rfl⟩

theorem senderExact_of_reachable {edge : Edge} {state : State}
    (reach : StepSystem.Reachable (senderStep edge) (initial edge) state) :
    ∃ completed, SenderExact edge state completed := by
  refine reach.invariant (fun state => ∃ completed, SenderExact edge state completed) ?_
    ⟨0, initial_senderExact edge⟩
  rintro state label next ⟨completed, exact⟩ taken
  obtain ⟨later, -, kept⟩ := exact.step taken
  exact ⟨later, kept⟩

end WriteCts

end NanoNccl.Rdma
