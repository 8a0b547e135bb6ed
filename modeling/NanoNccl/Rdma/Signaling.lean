import NanoNccl.Rdma.ReceiverBooks
import NanoNccl.Rdma.SenderBooks

/-!
# Which work requests are signaled

A proxy asks for a completion of only some of its work requests. Whether it does is decided from
what it sees while posting: the number in flight, the tail it loaded, the size of the next slice,
the consumer's head. An unsignaled work request is announced by a later one, so the last work
request of a burst has to be signaled, or another one has to be due. What was seen at the post
stays true: published slices keep their sizes until `send_head` passes them, and credit only grows.
-/

namespace NanoNccl.Rdma

open Ledger StepSystem

/-- Behind an unsignaled newest work request stands a published slice that is not empty. -/
def Followed (edge : Edge) (fifo : SendFifo) (view : QueueView ℕ) : Prop :=
  Unsignaled view.requests →
    ∃ k payload, view.nextPostStep = edge.step k ∧ fifo.published[k]? = some payload ∧ payload ≠ []

/-- Behind the slice to post stands one that is not empty, if the proxy has seen it published and
its size does not ask for a completion. -/
def NextSeen (edge : Edge) (fifo : SendFifo) (view : QueueView ℕ) (tail : ℕ) (zero : Bool) : Prop :=
  zero = false → view.nextPostStep + edge.stepIncrement < tail →
    ∃ k payload, view.nextPostStep + edge.stepIncrement = edge.step k ∧
      fifo.published[k]? = some payload ∧ payload ≠ []

section

variable {edge : Edge} {fifo next : SendFifo} {view : QueueView ℕ} {completed : ℕ}

/-- Slices stay published. -/
theorem SendExact.grown_of_offer (exact : SendExact edge fifo view completed)
    {payload : List UInt8} (offered : fifo.offer edge payload = some next) :
    fifo.published <+: next.published := by
  rw [(exact.sized.offer offered).2.1]

theorem SendExact.grown_of_publish (exact : SendExact edge fifo view completed)
    (published : fifo.publish edge = some next) : fifo.published <+: next.published := by
  obtain ⟨-, payload, grown⟩ := exact.sized.publish published
  exact ⟨[payload], grown.symm⟩

theorem Followed.grow (followed : Followed edge fifo view)
    (grown : fifo.published <+: next.published) : Followed edge next view := by
  intro open_end
  obtain ⟨k, payload, due, found, nonempty⟩ := followed open_end
  exact ⟨k, payload, due, Queue.get_of_prefix grown found, nonempty⟩

theorem NextSeen.grow {tail : ℕ} {zero : Bool} (seen : NextSeen edge fifo view tail zero)
    (grown : fifo.published <+: next.published) : NextSeen edge next view tail zero := by
  intro needless pending
  obtain ⟨k, payload, due, found, nonempty⟩ := seen needless pending
  exact ⟨k, payload, due, Queue.get_of_prefix grown found, nonempty⟩

/-- The size a slot of an unreleased slice holds is that of the slice. -/
theorem SendExact.size_of_published (exact : SendExact edge fifo view completed) {k : ℕ}
    {payload : List UInt8} (due : completed ≤ k) (found : fifo.published[k]? = some payload) :
    fifo.sizes (edge.slot (edge.step k)) = payload.length ∧ edge.step k < fifo.tail := by
  refine ⟨exact.sized.sizes k payload due found, ?_⟩
  rw [exact.sized.tail, edge.step_lt_step]
  exact (List.getElem?_eq_some_iff.mp found).1

/-- The step behind an unsignaled newest work request is due, and its slot has a size. -/
theorem SendExact.due_of_unsignaled (exact : SendExact edge fifo view completed)
    (followed : Followed edge fifo view) (open_end : Unsignaled view.requests) :
    0 < view.inflight ∧ view.nextPostStep < fifo.tail ∧
      fifo.sizes (edge.slot view.nextPostStep) ≠ 0 := by
  obtain ⟨k, payload, due, found, nonempty⟩ := followed open_end
  have unreleased : completed ≤ k := by
    have posted := exact.queue.post.symm.trans due
    rw [edge.step_inj] at posted
    omega
  obtain ⟨size, published⟩ := exact.size_of_published unreleased found
  refine ⟨exact.queue.queue.inflight_pos open_end, due ▸ published, ?_⟩
  rw [due, size]
  exact mt List.length_eq_zero_iff.mp nonempty

/-- What the proxy loads about the slice behind the one to post. -/
theorem SendExact.nextSeen (exact : SendExact edge fifo view completed) {tail : ℕ}
    (current : tail ≤ fifo.tail) :
    NextSeen edge fifo view tail (decide (view.nextPostStep + edge.stepIncrement < tail ∧
      fifo.sizes (edge.slot (view.nextPostStep + edge.stepIncrement)) = 0)) := by
  intro needless pending
  have next : view.nextPostStep + edge.stepIncrement =
      edge.step (completed + view.inflight + 1) := by
    rw [exact.queue.post, edge.step_succ]
  have inside : completed + view.inflight + 1 < fifo.published.length := by
    have below := pending.trans_le current
    rwa [next, exact.sized.tail, edge.step_lt_step] at below
  obtain ⟨payload, found⟩ : ∃ payload, fifo.published[completed + view.inflight + 1]? =
      some payload := ⟨_, List.getElem?_eq_getElem inside⟩
  refine ⟨_, payload, next, found, ?_⟩
  rintro rfl
  have size := (exact.size_of_published (by omega) found).1
  rw [← next, List.length_nil] at size
  exact of_decide_eq_false needless ⟨pending, size⟩

/-- An unsignaled post leaves room for another one. -/
theorem signalsData_eq_false {inflight tail postStep : ℕ} {zero : Bool}
    (unsignaled : signalsData edge inflight tail postStep zero = false) :
    inflight + 1 < edge.maxInflight ∧ postStep + edge.stepIncrement < tail ∧ zero = false := by
  simp only [signalsData, Bool.or_eq_false_iff, decide_eq_false_iff_not, Bool.not_eq_false',
    decide_eq_true_eq] at unsignaled
  obtain ⟨⟨⟨room, pending⟩, needless⟩, -⟩ := unsignaled
  exact ⟨Nat.lt_of_not_le room, pending, needless⟩

/-- A post is signaled unless the next slice is to be posted too. -/
theorem NextSeen.followed {tail id inflight : ℕ} {zero : Bool}
    (seen : NextSeen edge fifo view tail zero) (after : QueueView ℕ)
    (moved : after.nextPostStep = view.nextPostStep + edge.stepIncrement)
    (posted : after.requests = view.requests ++
      [(id, signalsData edge inflight tail view.nextPostStep zero)]) :
    Followed edge fifo after := by
  intro open_end
  rw [posted, unsignaled_concat] at open_end
  obtain ⟨-, pending, needless⟩ := signalsData_eq_false open_end
  obtain ⟨k, payload, due, found, nonempty⟩ := seen needless pending
  exact ⟨k, payload, moved.trans due, found, nonempty⟩

/-- Once everything is posted, executed and polled, and the newest work request was signaled,
nothing is in flight. -/
theorem QueueView.Exact.inflight_drained {ι : Type} {name : ℕ → ι} {view : QueueView ι}
    (exact : view.Exact edge name completed) (executed : view.executed = view.requests.length)
    (polled : view.completions = []) (settled : ¬ Unsignaled view.requests) :
    view.inflight = 0 := by
  have queue := exact.queue
  rw [executed, polled] at queue
  exact queue.drained settled

/-- Then `send_head` has reached `send_tail` if nothing is left to post. -/
theorem SendExact.drained (exact : SendExact edge fifo view completed)
    (posted : view.nextPostStep = fifo.tail) (executed : view.executed = view.requests.length)
    (polled : view.completions = []) (settled : ¬ Unsignaled view.requests) :
    fifo.head = fifo.tail := by
  have nothing := exact.queue.inflight_drained executed polled settled
  rw [← posted, exact.queue.post, nothing, exact.sized.head, Nat.add_zero]

end

/-! ### SEND/RECV -/

namespace SendRecv

/-- What the posting loop knows about its newest SEND. -/
def SignalFacts (edge : Edge) (state : State) : SendPc → Prop
  | .top => Unsignaled state.sendView.requests → state.sender.inflight < edge.maxInflight
  | .post tail _ zero => NextSeen edge state.sendFifo state.sendView tail zero
  | .poll | .drain _ => ¬ Unsignaled state.sendView.requests
  | .size _ | .next _ _ | .failed _ => True

/-- An unsignaled SEND is followed by another one before the proxy polls. -/
structure SenderSignals (edge : Edge) (state : State) : Prop where
  followed : Followed edge state.sendFifo state.sendView
  pc : SignalFacts edge state state.sender.pc

theorem initial_senderSignals (edge : Edge) : SenderSignals edge (initial edge) where
  followed := fun open_end => absurd open_end not_unsignaled_nil
  pc := fun open_end => absurd open_end not_unsignaled_nil

theorem SenderSignals.send {edge : Edge} {state next : State} {completed : ℕ}
    (signals : SenderSignals edge state) (exact : SenderExact edge state completed)
    (step : sendStep edge state = some next) : SenderSignals edge next := by
  obtain ⟨followed, signaled⟩ := signals
  obtain ⟨books, facts⟩ := exact
  have due := books.due_of_unsignaled followed
  unfold sendStep at step
  cases at_pc : state.sender.pc <;> rw [at_pc] at signaled facts <;> simp only [at_pc] at step
  case top =>
    split_ifs at step with room
    · exact Option.some.inj step ▸ ⟨followed, trivial⟩
    · obtain rfl := Option.some.inj step
      exact ⟨followed, fun open_end => room ⟨signaled open_end, (due open_end).2.1⟩⟩
  case size tail =>
    split_ifs at step with oversized empty behind
    · exact Option.some.inj step ▸ ⟨followed, trivial⟩
    · obtain rfl := Option.some.inj step
      exact ⟨followed, fun open_end => (due open_end).2.2 empty⟩
    · obtain rfl := Option.some.inj step
      exact ⟨fun open_end => absurd empty (due open_end).2.2,
        fun open_end => absurd empty (due open_end).2.2⟩
    · exact Option.some.inj step ▸ ⟨followed, trivial⟩
  case next tail payload =>
    obtain rfl := Option.some.inj step
    exact ⟨followed, books.nextSeen facts.2.2⟩
  case post tail payload zero =>
    obtain rfl := Option.some.inj step
    refine ⟨signaled.followed _ rfl (List.map_append ..), ?_⟩
    intro open_end
    rw [State.sendView, List.map_append, List.map_singleton, unsignaled_concat] at open_end
    exact (signalsData_eq_false open_end).1
  case drain left =>
    cases left with
    | zero =>
        obtain rfl := Option.some.inj step
        exact ⟨followed, fun open_end => absurd open_end signaled⟩
    | succ left =>
        cases waiting : state.sendCq with
        | nil => simp [waiting] at step
        | cons id later =>
            simp only [waiting] at step
            split at step
            · exact Option.some.inj step ▸ ⟨followed, trivial⟩
            · exact Option.some.inj step ▸ ⟨followed, signaled⟩
  case poll | failed => cases step

/-- The moves of others do not concern the newest SEND. -/
theorem SenderSignals.frame {edge : Edge} {state next : State} (signals : SenderSignals edge state)
    (same : next.sender = state.sender) (requests : next.sends = state.sends)
    (grown : state.sendFifo.published <+: next.sendFifo.published) : SenderSignals edge next := by
  obtain ⟨followed, signaled⟩ := signals
  have posted : next.sendView.requests = state.sendView.requests := by
    simp [State.sendView, requests]
  have due : next.sendView.nextPostStep = state.sendView.nextPostStep := by
    simp [State.sendView, same]
  refine ⟨?_, ?_⟩
  · have kept := followed.grow grown
    rwa [Followed, ← posted, ← due] at kept
  · rw [same]
    cases at_pc : state.sender.pc <;> rw [at_pc] at signaled
    case post =>
      have kept := NextSeen.grow signaled grown
      rwa [NextSeen, ← due] at kept
    case top => simpa [SignalFacts, posted, same] using signaled
    case poll | drain => simpa [SignalFacts, posted] using signaled
    all_goals trivial

theorem SenderSignals.step {edge : Edge} {state next : State} {completed : ℕ} {label : SenderLabel}
    (signals : SenderSignals edge state) (exact : SenderExact edge state completed)
    (taken : senderStep edge state label = some next) : SenderSignals edge next := by
  cases label with
  | offer payload =>
      obtain ⟨fifo, offered, rfl⟩ := Option.map_eq_some_iff.mp taken
      exact signals.frame rfl rfl (exact.books.grown_of_offer offered)
  | publish =>
      obtain ⟨fifo, published, rfl⟩ := Option.map_eq_some_iff.mp taken
      exact signals.frame rfl rfl (exact.books.grown_of_publish published)
  | send => exact signals.send exact taken
  | poll count =>
      simp only [senderStep, pollSend] at taken
      split_ifs at taken with ready
      obtain rfl := Option.some.inj taken
      have signaled := signals.pc
      rw [ready.1] at signaled
      exact ⟨signals.followed, signaled⟩
  | execute =>
      obtain ⟨wr, found, rfl⟩ := Option.map_eq_some_iff.mp taken
      exact signals.frame rfl rfl (List.prefix_rfl)

theorem senderSignals_of_reachable {edge : Edge} {state : State}
    (reach : StepSystem.Reachable (senderStep edge) (initial edge) state) :
    SenderSignals edge state := by
  have both := reach.invariant
    (fun state => (∃ completed, SenderExact edge state completed) ∧ SenderSignals edge state) ?_
    ⟨⟨0, initial_senderExact edge⟩, initial_senderSignals edge⟩
  · exact both.2
  · rintro state label next ⟨⟨completed, exact⟩, signals⟩ taken
    obtain ⟨later, -, kept⟩ := exact.step taken
    exact ⟨⟨later, kept⟩, signals.step exact taken⟩

/-- A label of the proxy itself. -/
def SenderLabel.Own : SenderLabel → Prop
  | .send | .poll _ => True
  | .offer _ | .publish | .execute => False

/-- `progress_send_recv` returns after the last completion of its batch. -/
def progressSendReturns (_ next : State) : Prop := next.sender.pc = .drain 0

/-- The states of a send proxy between two calls of `progress`. -/
def BetweenProgressSend (edge : Edge) : State → Prop :=
  Between (senderStep edge) (initial edge) SenderLabel.Own progressSendReturns

/-- The newest SEND is signaled between two calls. -/
theorem not_unsignaled_between {edge : Edge} {state : State}
    (between : BetweenProgressSend edge state) : ¬ Unsignaled state.sendView.requests := by
  refine Between.invariant (fun state => ¬ Unsignaled state.sendView.requests) not_unsignaled_nil
    ?_ ?_ between
  · intro state label next reach taken returned
    have signaled := (senderSignals_of_reachable (reach.extend taken)).pc
    rwa [returned] at signaled
  · rintro state (payload | _ | _ | count | _) next other settled taken
    · obtain ⟨fifo, -, rfl⟩ := Option.map_eq_some_iff.mp taken
      exact settled
    · obtain ⟨fifo, -, rfl⟩ := Option.map_eq_some_iff.mp taken
      exact settled
    · exact absurd trivial other
    · exact absurd trivial other
    · obtain ⟨wr, -, rfl⟩ := Option.map_eq_some_iff.mp taken
      exact settled

end SendRecv

/-! ### WRITE+CTS -/

namespace WriteCts

/-- What the posting loop knows about the slice behind the one it posts. -/
def SignalFacts (edge : Edge) (state : State) : SendPc → Prop
  | .post tail _ _ _ zero => NextSeen edge state.sendFifo (state.sendView edge) tail zero
  | .top | .size _ | .ready _ _ | .tag _ _ | .target _ _ | .next _ _ _ _ | .clear | .poll
  | .drain _ | .failed _ => True

/-- Behind an unsignaled WRITE stands a slice that only waits for its CTS. -/
structure SenderSignals (edge : Edge) (state : State) : Prop where
  followed : Followed edge state.sendFifo (state.sendView edge)
  pc : SignalFacts edge state state.sender.pc

theorem initial_senderSignals (edge : Edge) : SenderSignals edge (initial edge) where
  followed := fun open_end => absurd open_end not_unsignaled_nil
  pc := trivial

/-- A move that only changes the program counter, between points where every WRITE is counted. -/
theorem SenderSignals.goto {edge : Edge} {state : State} {pc : SendPc}
    (signals : SenderSignals edge state) (before : state.sender.pc.uncounted = 0)
    (after : pc.uncounted = 0) (facts : SignalFacts edge (state.sendGoto pc) pc) :
    SenderSignals edge (state.sendGoto pc) where
  followed := by
    rw [State.sendView_goto before after]
    exact signals.followed
  pc := facts

theorem SenderSignals.send {edge : Edge} {state next : State} {completed : ℕ}
    (signals : SenderSignals edge state) (exact : SenderExact edge state completed)
    (step : sendStep edge state = some next) : SenderSignals edge next := by
  have followed := signals.followed
  have signaled := signals.pc
  obtain ⟨books, facts⟩ := exact
  have due := books.due_of_unsignaled followed
  unfold sendStep at step
  cases at_pc : state.sender.pc <;> rw [at_pc] at signaled facts <;> simp only [at_pc] at step
  case clear =>
    obtain rfl := Option.some.inj step
    refine ⟨?_, trivial⟩
    simpa [State.sendView, SendPc.uncounted, at_pc] using followed
  case poll | failed => cases step
  all_goals have counted : state.sender.pc.uncounted = 0 := by rw [at_pc]; rfl
  case top =>
    split_ifs at step
    all_goals exact Option.some.inj step ▸ signals.goto counted rfl trivial
  case size tail =>
    rw [State.sendView_counted edge counted] at due
    split_ifs at step with oversized empty behind outside
    · exact Option.some.inj step ▸ signals.goto counted rfl trivial
    · exact Option.some.inj step ▸ signals.goto counted rfl trivial
    · obtain rfl := Option.some.inj step
      exact ⟨fun open_end => absurd empty (due open_end).2.2, trivial⟩
    · exact Option.some.inj step ▸ signals.goto counted rfl trivial
    · exact Option.some.inj step ▸ signals.goto counted rfl trivial
  case ready | tag | target =>
    split_ifs at step
    all_goals exact Option.some.inj step ▸ signals.goto counted rfl trivial
  case next tail payload remoteAddr rkey =>
    obtain rfl := Option.some.inj step
    rw [State.sendView_counted edge counted] at books
    exact signals.goto counted rfl (books.nextSeen facts.2.2)
  case post tail payload remoteAddr rkey zero =>
    obtain rfl := Option.some.inj step
    rw [SignalFacts, State.sendView_counted edge counted] at signaled
    exact ⟨signaled.followed _ (by simp [State.sendView, SendPc.uncounted]) (List.map_append ..),
      trivial⟩
  case drain left =>
    cases left with
    | zero => exact Option.some.inj step ▸ signals.goto counted rfl trivial
    | succ left =>
        cases waiting : state.sendCq with
        | nil => simp [waiting] at step
        | cons id later =>
            rw [State.sendView_counted edge counted] at followed
            simp only [waiting] at step
            split at step
            · exact Option.some.inj step ▸ signals.goto counted rfl trivial
            · exact Option.some.inj step ▸ ⟨followed, trivial⟩

/-- The moves of others do not concern the newest WRITE. -/
theorem SenderSignals.frame {edge : Edge} {state next : State} (signals : SenderSignals edge state)
    (same : next.sender = state.sender) (requests : next.writes = state.writes)
    (grown : state.sendFifo.published <+: next.sendFifo.published) : SenderSignals edge next := by
  obtain ⟨followed, signaled⟩ := signals
  have posted : (next.sendView edge).requests = (state.sendView edge).requests := by
    simp [State.sendView, requests]
  have due : (next.sendView edge).nextPostStep = (state.sendView edge).nextPostStep := by
    simp [State.sendView, same]
  refine ⟨?_, ?_⟩
  · have kept := followed.grow grown
    rwa [Followed, ← posted, ← due] at kept
  · rw [same]
    cases at_pc : state.sender.pc <;> rw [at_pc] at signaled
    case post =>
      have kept := NextSeen.grow signaled grown
      rwa [NextSeen, ← due] at kept
    all_goals trivial

theorem SenderSignals.step {edge : Edge} {state next : State} {completed : ℕ} {label : SenderLabel}
    (signals : SenderSignals edge state) (exact : SenderExact edge state completed)
    (taken : senderStep edge state label = some next) : SenderSignals edge next := by
  cases label with
  | offer payload =>
      obtain ⟨fifo, offered, rfl⟩ := Option.map_eq_some_iff.mp taken
      exact signals.frame rfl rfl (exact.books.grown_of_offer offered)
  | publish =>
      obtain ⟨fifo, published, rfl⟩ := Option.map_eq_some_iff.mp taken
      exact signals.frame rfl rfl (exact.books.grown_of_publish published)
  | send => exact signals.send exact taken
  | poll count =>
      simp only [senderStep, pollSend] at taken
      split_ifs at taken with ready
      obtain rfl := Option.some.inj taken
      exact signals.goto (by rw [ready.1]; rfl) rfl trivial
  | execute =>
      obtain ⟨wr, found, rfl⟩ := Option.map_eq_some_iff.mp taken
      exact signals.frame rfl rfl List.prefix_rfl
  | cts slot value =>
      obtain rfl := Option.some.inj taken
      exact signals.frame rfl rfl List.prefix_rfl

theorem senderSignals_of_reachable {edge : Edge} {state : State}
    (reach : StepSystem.Reachable (senderStep edge) (initial edge) state) :
    SenderSignals edge state := by
  have both := reach.invariant
    (fun state => (∃ completed, SenderExact edge state completed) ∧ SenderSignals edge state) ?_
    ⟨⟨0, initial_senderExact edge⟩, initial_senderSignals edge⟩
  · exact both.2
  · rintro state label next ⟨⟨completed, exact⟩, signals⟩ taken
    obtain ⟨later, -, kept⟩ := exact.step taken
    exact ⟨⟨later, kept⟩, signals.step exact taken⟩

/-- A label of the proxy itself. -/
def SenderLabel.Own : SenderLabel → Prop
  | .send | .poll _ => True
  | .offer _ | .publish | .execute | .cts _ _ => False

/-- `progress_write_cts` returns after the last completion of its batch. -/
def progressSendReturns (_ next : State) : Prop := next.sender.pc = .drain 0

/-- The states of a send proxy between two calls of `progress`. -/
def BetweenProgressSend (edge : Edge) : State → Prop :=
  Between (senderStep edge) (initial edge) SenderLabel.Own progressSendReturns

/-- Every WRITE is counted between two calls. -/
theorem uncounted_between {edge : Edge} {state : State}
    (between : BetweenProgressSend edge state) : state.sender.pc.uncounted = 0 := by
  refine Between.invariant (fun state => state.sender.pc.uncounted = 0) rfl ?_ ?_ between
  · intro state label next reach taken returned
    rw [returned]
    rfl
  · rintro state (payload | _ | _ | count | _ | ⟨slot, value⟩) next other counted taken
    · obtain ⟨fifo, -, rfl⟩ := Option.map_eq_some_iff.mp taken
      exact counted
    · obtain ⟨fifo, -, rfl⟩ := Option.map_eq_some_iff.mp taken
      exact counted
    · exact absurd trivial other
    · exact absurd trivial other
    · obtain ⟨wr, -, rfl⟩ := Option.map_eq_some_iff.mp taken
      exact counted
    · obtain rfl := Option.some.inj taken
      exact counted

/-- What the CTS loop knows about its newest CTS. -/
def CtsFacts (edge : Edge) (state : State) : RecvPc → Prop
  | .ctsTest =>
      Unsignaled state.ctsView.requests →
        state.receiver.inflightCts < edge.maxInflight ∧
          state.credit edge state.receiver.nextCtsStep
  | .ctsShadow | .ctsPost => True
  | .immTest | .immPost | .poll | .drain _ | .storeTail _ | .failed _ =>
      ¬ Unsignaled state.ctsView.requests

theorem signalsCts_eq_false {edge : Edge} {state : State}
    (unsignaled : signalsCts edge state = false) :
    state.receiver.inflightCts + 1 < edge.maxInflight ∧
      state.credit edge (state.receiver.nextCtsStep + edge.stepIncrement) := by
  simp only [signalsCts, Bool.or_eq_false_iff, Bool.not_eq_false', Bool.and_eq_true,
    decide_eq_true_eq] at unsignaled
  obtain ⟨⟨-, room, credit⟩, -⟩ := unsignaled
  refine ⟨room, ?_⟩
  rw [State.credit]
  omega

/-- An unsignaled CTS is followed by another one before the CTS loop ends. -/
theorem CtsFacts.recv {edge : Edge} {state next : State}
    (signaled : CtsFacts edge state state.receiver.pc) (step : recvStep edge state = some next) :
    CtsFacts edge next next.receiver.pc := by
  unfold recvStep at step
  cases at_pc : state.receiver.pc <;> rw [at_pc] at signaled <;> simp only [at_pc] at step
  case ctsTest =>
    split_ifs at step with room prepared
    · exact Option.some.inj step ▸ trivial
    · obtain rfl := Option.some.inj step
      exact fun open_end => room (signaled open_end)
    · obtain rfl := Option.some.inj step
      exact fun open_end => absurd (signaled open_end) room
  case ctsShadow => exact Option.some.inj step ▸ trivial
  case ctsPost =>
    obtain rfl := Option.some.inj step
    intro open_end
    rw [State.ctsView, List.map_append, List.map_singleton, unsignaled_concat] at open_end
    exact signalsCts_eq_false open_end
  case immTest =>
    split_ifs at step
    · exact Option.some.inj step ▸ signaled
    · exact Option.some.inj step ▸ signaled
    · exact Option.some.inj step ▸ fun open_end => absurd open_end signaled
  case immPost | storeTail => exact Option.some.inj step ▸ signaled
  case drain left =>
    cases left with
    | zero => exact Option.some.inj step ▸ fun open_end => absurd open_end signaled
    | succ left =>
        cases waiting : state.recvCq with
        | nil => simp [waiting] at step
        | cons wc later =>
            simp only [waiting, Option.some.injEq] at step
            subst step
            cases wc with
            | cts completedThrough =>
                unfold drainRecv
                dsimp only
                split <;> exact signaled
            | imm completedStep immData =>
                unfold drainRecv
                dsimp only
                split_ifs <;> exact signaled
  case poll | failed => cases step

/-- The moves of others leave the newest CTS alone, and credit only grows. -/
theorem CtsFacts.frame {edge : Edge} {state next : State}
    (signaled : CtsFacts edge state state.receiver.pc) (same : next.receiver = state.receiver)
    (requests : next.ctsWrites = state.ctsWrites)
    (forward : state.recvFifo.head ≤ next.recvFifo.head) :
    CtsFacts edge next next.receiver.pc := by
  have posted : next.ctsView.requests = state.ctsView.requests := by
    simp [State.ctsView, requests]
  rw [same]
  cases at_pc : state.receiver.pc <;> rw [at_pc] at signaled
  case ctsTest =>
    intro open_end
    rw [posted] at open_end
    obtain ⟨room, credit⟩ := signaled open_end
    rw [same]
    exact ⟨room, credit.trans (Nat.add_le_add_right forward _)⟩
  case ctsShadow | ctsPost => trivial
  all_goals
    intro open_end
    rw [posted] at open_end
    exact signaled open_end

theorem CtsFacts.step {edge : Edge} {state next : State} {label : ReceiverLabel}
    (signaled : CtsFacts edge state state.receiver.pc)
    (taken : receiverStep edge state label = some next) : CtsFacts edge next next.receiver.pc := by
  cases label with
  | recv => exact signaled.recv taken
  | poll count =>
      simp only [receiverStep, pollRecv] at taken
      split_ifs at taken with ready
      obtain rfl := Option.some.inj taken
      rw [ready.1] at signaled
      exact signaled
  | arrive immData =>
      obtain ⟨step, found, rfl⟩ := Option.map_eq_some_iff.mp taken
      exact signaled.frame rfl rfl le_rfl
  | completeCts =>
      obtain ⟨wr, found, rfl⟩ := Option.map_eq_some_iff.mp taken
      exact signaled.frame rfl rfl le_rfl
  | release head =>
      obtain ⟨fifo, released, rfl⟩ := Option.map_eq_some_iff.mp taken
      exact signaled.frame rfl rfl (RecvFifo.advance_counters released).2

/-- A label of the proxy itself. -/
def ReceiverLabel.Own : ReceiverLabel → Prop
  | .recv | .poll _ => True
  | .arrive _ | .completeCts | .release _ => False

/-- `progress_write_cts` returns after the last completion of its batch, `prepare` after it has set
`prepared_`. -/
def progressRecvReturns (state next : State) : Prop :=
  next.receiver.pc = .drain 0 ∨
    state.receiver.prepared = false ∧ next.receiver.prepared = true

/-- The states of a receive proxy between two calls of `prepare` or `progress`. -/
def BetweenProgressRecv (edge : Edge) : State → Prop :=
  Between (receiverStep edge) (initial edge) ReceiverLabel.Own progressRecvReturns

/-- `prepare` ends where its CTS loop does. -/
theorem recvStep_prepared {edge : Edge} {state next : State}
    (step : recvStep edge state = some next) :
    next.receiver.prepared = state.receiver.prepared ∨
      state.receiver.pc = .ctsTest ∧ next.ctsWrites = state.ctsWrites ∧
        ¬ (state.receiver.inflightCts < edge.maxInflight ∧
          state.credit edge state.receiver.nextCtsStep) := by
  unfold recvStep at step
  cases at_pc : state.receiver.pc <;> simp only [at_pc] at step
  case ctsTest =>
    split_ifs at step with room prepared
    · exact .inl (Option.some.inj step ▸ rfl)
    · exact .inl (Option.some.inj step ▸ rfl)
    · exact .inr ⟨rfl, Option.some.inj step ▸ rfl, room⟩
  case immTest =>
    split_ifs at step
    all_goals exact .inl (Option.some.inj step ▸ rfl)
  case ctsShadow | ctsPost | immPost | storeTail => exact .inl (Option.some.inj step ▸ rfl)
  case drain left =>
    cases left with
    | zero => exact .inl (Option.some.inj step ▸ rfl)
    | succ left =>
        cases waiting : state.recvCq with
        | nil => simp [waiting] at step
        | cons wc later =>
            simp only [waiting, Option.some.injEq] at step
            subst step
            cases wc with
            | cts completedThrough =>
                unfold drainRecv
                dsimp only
                split <;> exact .inl rfl
            | imm completedStep immData =>
                unfold drainRecv
                dsimp only
                split_ifs <;> exact .inl rfl
  case poll | failed => cases step

/-- The newest CTS is signaled where a call returns. -/
theorem CtsFacts.settled_of_returns {edge : Edge} {state next : State} {label : ReceiverLabel}
    (signaled : CtsFacts edge state state.receiver.pc)
    (taken : receiverStep edge state label = some next)
    (returned : progressRecvReturns state next) :
    ¬ Unsignaled next.ctsView.requests := by
  have after := signaled.step taken
  rcases returned with at_end | ⟨before, prepared⟩
  · rwa [at_end] at after
  · have changed : next.receiver.prepared ≠ state.receiver.prepared := by simp [before, prepared]
    cases label with
    | recv =>
        rcases recvStep_prepared taken with same | ⟨at_test, requests, no_room⟩
        · exact absurd same changed
        · rw [at_test] at signaled
          intro open_end
          rw [State.ctsView, requests] at open_end
          exact no_room (signaled open_end)
    | poll count =>
        simp only [receiverStep, pollRecv] at taken
        split_ifs at taken
        exact absurd (Option.some.inj taken ▸ rfl) changed
    | arrive immData =>
        obtain ⟨step, -, rfl⟩ := Option.map_eq_some_iff.mp taken
        exact absurd rfl changed
    | completeCts =>
        obtain ⟨wr, -, rfl⟩ := Option.map_eq_some_iff.mp taken
        exact absurd rfl changed
    | release head =>
        obtain ⟨fifo, -, rfl⟩ := Option.map_eq_some_iff.mp taken
        exact absurd rfl changed

theorem ctsFacts_of_reachable {edge : Edge} {state : State}
    (reach : StepSystem.Reachable (receiverStep edge) (initial edge) state) :
    CtsFacts edge state state.receiver.pc := by
  have start : CtsFacts edge (initial edge) (initial edge).receiver.pc := not_unsignaled_nil
  exact reach.invariant (fun state => CtsFacts edge state state.receiver.pc)
    (fun _ _ _ signaled taken => signaled.step taken) start

/-- The newest CTS is signaled between two calls. -/
theorem not_unsignaled_between {edge : Edge} {state : State}
    (between : BetweenProgressRecv edge state) : ¬ Unsignaled state.ctsView.requests := by
  refine Between.invariant (fun state => ¬ Unsignaled state.ctsView.requests) not_unsignaled_nil
    ?_ ?_ between
  · intro state label next reach taken returned
    exact (ctsFacts_of_reachable reach).settled_of_returns taken returned
  · rintro state (_ | count | immData | _ | head) next other settled taken
    · exact absurd trivial other
    · exact absurd trivial other
    · obtain ⟨step, -, rfl⟩ := Option.map_eq_some_iff.mp taken
      exact settled
    · obtain ⟨wr, -, rfl⟩ := Option.map_eq_some_iff.mp taken
      exact settled
    · obtain ⟨fifo, -, rfl⟩ := Option.map_eq_some_iff.mp taken
      exact settled

end WriteCts

/-- The loop of `RdmaSendProxy::drain` goes on. -/
def SendFifo.drainWaits (hasError : Bool) (fifo : SendFifo) : Bool :=
  !hasError && decide (fifo.head < fifo.tail)

theorem SendFifo.drainWaits_eq_false {fifo : SendFifo} (drained : fifo.head = fifo.tail)
    (hasError : Bool) : fifo.drainWaits hasError = false := by
  simp [drainWaits, drained]

/-- Unsignaled work requests never strand credit. Between two calls of a proxy the last SEND and
the last CTS were signaled, and a last WRITE that was not has a slice to be posted behind it that
is not empty. So once all is posted, executed and polled, `drain` returns and no CTS is in
flight. -/
theorem unsignaled_never_strands (edge : Edge) :
    (∀ state, SendRecv.BetweenProgressSend edge state →
      (∀ wr, state.sends.getLast? = some wr → wr.signaled = true) ∧
      (state.sender.nextPostStep = state.sendFifo.tail → state.executed = state.sends.length →
        state.sendCq = [] → state.sendFifo.head = state.sendFifo.tail ∧
          ∀ hasError, state.sendFifo.drainWaits hasError = false)) ∧
    (∀ state, WriteCts.BetweenProgressSend edge state →
      (∀ wr, state.writes.getLast? = some wr → wr.signaled = false →
        state.sender.nextPostStep < state.sendFifo.tail) ∧
      (state.sender.nextPostStep < state.sendFifo.tail →
        state.sendFifo.sizes (edge.slot state.sender.nextPostStep) = 0 →
        0 < state.sender.inflight → ∀ wr, state.writes.getLast? = some wr → wr.signaled = true) ∧
      (state.sender.nextPostStep = state.sendFifo.tail → state.executed = state.writes.length →
        state.sendCq = [] → state.sendFifo.head = state.sendFifo.tail ∧
          ∀ hasError, state.sendFifo.drainWaits hasError = false)) ∧
    (∀ state, WriteCts.BetweenProgressRecv edge state →
      (∀ wr, state.ctsWrites.getLast? = some wr → wr.signaled = true) ∧
      (state.ctsAcked = state.ctsWrites.length → (∀ step, .cts step ∉ state.recvCq) →
        state.receiver.inflightCts = 0)) := by
  refine ⟨?_, ?_, ?_⟩
  · intro state between
    have settled := SendRecv.not_unsignaled_between between
    obtain ⟨completed, exact⟩ := SendRecv.senderExact_of_reachable between.reachable
    refine ⟨?_, ?_⟩
    · intro wr last
      by_contra unsignaled
      rw [Bool.not_eq_true] at unsignaled
      exact settled ((unsignaled_map SendRecv.SendWr.request last).mpr unsignaled)
    · intro posted executed polled
      have drained : state.sendFifo.head = state.sendFifo.tail :=
        exact.books.drained posted (by simpa [SendRecv.State.sendView] using executed) polled
          settled
      exact ⟨drained, SendFifo.drainWaits_eq_false drained⟩
  · intro state between
    obtain ⟨completed, ⟨books, -⟩⟩ := WriteCts.senderExact_of_reachable between.reachable
    obtain ⟨followed, -⟩ := WriteCts.senderSignals_of_reachable between.reachable
    rw [WriteCts.State.sendView_counted edge (WriteCts.uncounted_between between)] at books followed
    have due := books.due_of_unsignaled followed
    refine ⟨?_, ?_, ?_⟩
    · intro wr last unsignaled
      exact (due ((unsignaled_map _ last).mpr unsignaled)).2.1
    · intro pending empty busy wr last
      by_contra unsignaled
      rw [Bool.not_eq_true] at unsignaled
      exact (due ((unsignaled_map _ last).mpr unsignaled)).2.2 empty
    · intro posted executed polled
      have settled : ¬ Unsignaled (state.writes.map WriteCts.WriteWr.request) := by
        intro open_end
        exact (due open_end).2.1.ne posted
      have drained : state.sendFifo.head = state.sendFifo.tail :=
        books.drained posted (by simpa using executed) polled settled
      exact ⟨drained, SendFifo.drainWaits_eq_false drained⟩
  · intro state between
    have settled := WriteCts.not_unsignaled_between between
    obtain ⟨completed, ctsCompleted, exact⟩ :=
      WriteCts.receiverExact_of_reachable between.reachable
    refine ⟨?_, ?_⟩
    · intro wr last
      by_contra unsignaled
      rw [Bool.not_eq_true] at unsignaled
      exact settled
        ((unsignaled_map (fun wr : WriteCts.CtsWr => (wr.wrId, wr.signaled)) last).mpr unsignaled)
    · intro acked polled
      have nothing : state.ctsView.completions = [] := by
        rw [WriteCts.State.ctsView, List.filterMap_eq_nil_iff]
        intro wc waiting
        cases wc with
        | cts step => exact absurd waiting (polled step)
        | imm step immData => rfl
      exact exact.cts.inflight_drained (by simpa [WriteCts.State.ctsView] using acked) nothing
        settled

theorem unsignaled_never_strands_bursts :
    (∃ state, SendRecv.BetweenProgressSend communicatorEdge state ∧
      state.sends.map SendRecv.SendWr.signaled = [true, false, true] ∧
      state.sendFifo.head = state.sendFifo.tail) ∧
    (∃ state, WriteCts.BetweenProgressSend communicatorEdge state ∧
      state.writes.map WriteCts.WriteWr.signaled = [true, false] ∧
      state.sender.nextPostStep < state.sendFifo.tail) ∧
    (∃ state, WriteCts.BetweenProgressRecv communicatorEdge state ∧ state.ctsWrites.length = 4 ∧
      state.receiver.inflightCts = 0) := by
  obtain ⟨sends, writes, cts⟩ := unsignaled_never_strands communicatorEdge
  refine ⟨?_, ?_, ?_⟩
  · have run : (exec (SendRecv.senderStep communicatorEdge) (SendRecv.initial communicatorEdge)
        threeSends).map (fun state => (state.sends.map SendRecv.SendWr.signaled, state.sender.pc,
          (state.sender.nextPostStep, state.sendFifo.tail), state.executed, state.sendCq)) =
            some ([true, false, true], .drain 0, (6, 6), 3, []) := by
      decide +kernel
    obtain ⟨state, execution, seen⟩ := Option.map_eq_some_iff.mp run
    simp only [Prod.mk.injEq] at seen
    obtain ⟨flags, pc, ⟨posted, tail⟩, executed, polled⟩ := seen
    have length : state.sends.length = 3 := by simpa using congrArg List.length flags
    have between : SendRecv.BetweenProgressSend communicatorEdge state :=
      between_of_exec execution fun _ => pc
    exact ⟨state, between, flags, ((sends state between).2 (posted.trans tail.symm)
      (executed.trans length.symm) polled).1⟩
  · have run : (exec (WriteCts.senderStep communicatorEdge) (WriteCts.initial communicatorEdge)
        twoWrites).map (fun state => (state.writes.map WriteCts.WriteWr.signaled, state.sender.pc,
          state.writes.getLast?.map WriteCts.WriteWr.signaled)) =
            some ([true, false], .drain 0, some false) := by
      decide +kernel
    obtain ⟨state, execution, seen⟩ := Option.map_eq_some_iff.mp run
    simp only [Prod.mk.injEq] at seen
    obtain ⟨flags, pc, newest⟩ := seen
    obtain ⟨wr, last, unsignaled⟩ := Option.map_eq_some_iff.mp newest
    have between : WriteCts.BetweenProgressSend communicatorEdge state :=
      between_of_exec execution fun _ => pc
    exact ⟨state, between, flags, (writes state between).1 wr last unsignaled⟩
  · have run : (exec (WriteCts.receiverStep communicatorEdge) (WriteCts.initial communicatorEdge)
        fourCts).map (fun state => (state.ctsWrites.length, state.receiver.pc, state.ctsAcked,
          state.recvCq)) = some (4, .drain 0, 4, []) := by
      decide +kernel
    obtain ⟨state, execution, seen⟩ := Option.map_eq_some_iff.mp run
    simp only [Prod.mk.injEq] at seen
    obtain ⟨length, pc, acked, polled⟩ := seen
    have between : WriteCts.BetweenProgressRecv communicatorEdge state :=
      between_of_exec execution fun _ => .inl pc
    exact ⟨state, between, length, (cts state between).2 (acked.trans length.symm)
      (fun _ => by simp [polled])⟩

/-! ### A producer without credit -/

/-- The transition function of a SEND proxy whose producer does not wait for `send_head`. -/
def SendRecv.anySenderStep (edge : Edge) (state : SendRecv.State) :
    SendRecv.SenderLabel → Option SendRecv.State
  | .offer payload =>
      if state.sendFifo.staged = none then
        some { state with sendFifo := state.sendFifo.write edge payload }
      else none
  | label => SendRecv.senderStep edge state label

/-- The proxy posts steps 0 and 2 of four slices; before it looks at step 4, the producer has
written three more, the last one empty and into the slot of step 4. -/
def overwrittenSize : List SendRecv.SenderLabel :=
  let slice := fun payload => [.offer payload, .publish]
  List.flatten
    [slice [1], slice [2], slice [3], slice [4], List.replicate 8 .send,
      slice [5], slice [6], slice [], [.send, .send, .poll 0]]

/-- The SEND of step 2 was posted unsignaled for the sake of step 4, and the proxy returns before
it posts step 4: it waits for the completion of step 2, which was not asked for. -/
theorem stranded_without_credit :
    ¬ ∀ (edge : Edge) (state : SendRecv.State),
      Between (SendRecv.anySenderStep edge) (SendRecv.initial edge) SendRecv.SenderLabel.Own
        SendRecv.progressSendReturns state →
      ∀ wr, state.sends.getLast? = some wr → wr.signaled = true := by
  intro settled
  have run : (exec (SendRecv.anySenderStep communicatorEdge) (SendRecv.initial communicatorEdge)
      overwrittenSize).map (fun state => (state.sender.pc,
        state.sends.getLast?.map SendRecv.SendWr.signaled)) = some (.drain 0, some false) := by
    decide +kernel
  obtain ⟨state, execution, seen⟩ := Option.map_eq_some_iff.mp run
  obtain ⟨pc, newest⟩ := Prod.mk.inj seen
  obtain ⟨wr, last, unsignaled⟩ := Option.map_eq_some_iff.mp newest
  have signaled := settled communicatorEdge state (between_of_exec execution fun _ => pc) wr last
  exact absurd (signaled.symm.trans unsignaled) (by decide)

end NanoNccl.Rdma
