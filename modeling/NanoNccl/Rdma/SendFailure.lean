import NanoNccl.Lib.FailStop
import NanoNccl.Rdma.SenderBooks

/-!
# Failures of the send proxies

The surroundings of a send proxy are less reliable here: completions of executed work requests may
be reported in any order, late, or not at all. A reliable connection still executes work requests in
posting order, so an accepted completion vouches for all work requests before its own, and
`send_head` never passes a slice whose work request was not executed.
-/

namespace NanoNccl.Rdma

open StepSystem

/-- `wr_id` of the work requests of a queue, oldest first. -/
def QueueView.ids (view : QueueView ℕ) : List ℕ := view.requests.map Prod.fst

/-- The work request was executed. -/
def QueueView.Executed (view : QueueView ℕ) (id : ℕ) : Prop := id ∈ view.ids.take view.executed

/-- Every slice `send_head` has passed was empty or has an executed work request. -/
structure SendSafe (edge : Edge) (fifo : SendFifo) (view : QueueView ℕ) (completed : ℕ) :
    Prop where
  sized : fifo.Sized edge completed
  complete : view.nextCompleteStep = edge.step completed
  post : view.nextPostStep = edge.step (completed + view.inflight)
  published : completed + view.inflight ≤ fifo.published.length
  ordered : view.ids.Pairwise (· < ·)
  named : ∀ id ∈ view.ids, ∃ k < completed + view.inflight, id = edge.step k
  pending : ∀ k, completed ≤ k → k < completed + view.inflight → edge.step k ∈ view.ids
  reported : ∀ id ∈ view.completions, view.Executed id
  done : ∀ k < completed, fifo.published[k]? = some [] ∨ view.Executed (edge.step k)

/-- A completion of the `j`-th slice is accepted only if that slice is in flight. -/
theorem completeThrough_ok_step {edge : Edge} {completed inflight j : ℕ} {result : ℕ × ℕ}
    (accepted : completeThrough edge (edge.step completed) inflight (edge.step j) = .ok result) :
    ∃ offset < inflight, j = completed + offset ∧
      result = (edge.step (completed + offset + 1), inflight - (offset + 1)) := by
  have forward := (completeThrough_ok accepted).1
  rw [edge.step_le_step] at forward
  obtain ⟨offset, rfl⟩ := Nat.exists_eq_add_of_le forward
  by_cases inside : offset < inflight
  · rw [completeThrough_step inside] at accepted
    exact ⟨offset, inside, rfl, (Except.ok.inj accepted).symm⟩
  · have distance : edge.step (completed + offset) - edge.step completed =
        edge.stepIncrement * offset := by
      simp only [Edge.step, Nat.mul_add]
      omega
    unfold completeThrough at accepted
    rw [distance, Nat.mul_mod_right, Nat.mul_div_cancel_left offset edge.stepIncrement_pos,
      if_neg (by simp), if_pos (by omega)] at accepted
    cases accepted

/-- Work requests posted before an executed one are executed. -/
theorem mem_take_of_le {ids : List ℕ} (ordered : ids.Pairwise (· < ·)) {count early late : ℕ}
    (before : early ≤ late) (executed : late ∈ ids.take count) (posted : early ∈ ids) :
    early ∈ ids.take count := by
  rw [← List.take_append_drop count ids, List.pairwise_append] at ordered
  rw [← List.take_append_drop count ids] at posted
  rcases List.mem_append.mp posted with inside | outside
  · exact inside
  · exact absurd before (Nat.not_le.mpr (ordered.2.2 late executed early outside))

namespace SendSafe

variable {edge : Edge} {fifo next : SendFifo} {view : QueueView ℕ} {completed : ℕ}

/-- The producer only adds slices. -/
theorem frame (safe : SendSafe edge fifo view completed) (sized : next.Sized edge completed)
    (grown : fifo.published <+: next.published) : SendSafe edge next view completed :=
  { safe with
    sized := sized
    published := safe.published.trans grown.length_le
    done := fun k passed =>
      (safe.done k passed).imp (fun empty => Queue.get_of_prefix grown empty) fun executed =>
        executed }

/-- A slice published with size 0 is empty. -/
theorem empty_of_size (safe : SendSafe edge fifo view completed)
    (caughtUp : view.nextPostStep = view.nextCompleteStep) (pending : view.nextPostStep < fifo.tail)
    (empty : fifo.sizes (edge.slot view.nextPostStep) = 0) :
    view.inflight = 0 ∧ fifo.published[completed]? = some [] := by
  have nothing : view.inflight = 0 := by
    rw [safe.post, safe.complete, edge.step_inj] at caughtUp
    omega
  rw [safe.post, nothing, Nat.add_zero] at pending empty
  rw [safe.sized.tail, edge.step_lt_step] at pending
  obtain ⟨payload, found⟩ : ∃ payload, fifo.published[completed]? = some payload :=
    ⟨_, List.getElem?_eq_getElem pending⟩
  have size := safe.sized.sizes completed payload le_rfl found
  rw [empty] at size
  rw [found, List.length_eq_zero_iff.mp size.symm]
  exact ⟨nothing, rfl⟩

/-- The work request of the next published slice is posted. -/
theorem postRequest (safe : SendSafe edge fifo view completed)
    (pending : view.nextPostStep < fifo.tail) (signaled : Bool) :
    SendSafe edge fifo
      { view with
        nextPostStep := view.nextPostStep + edge.stepIncrement
        inflight := view.inflight + 1
        requests := view.requests ++ [(view.nextPostStep, signaled)] } completed := by
  have grown : (view.requests ++ [(view.nextPostStep, signaled)]).map Prod.fst =
      view.ids ++ [edge.step (completed + view.inflight)] := by
    rw [List.map_append, List.map_singleton, safe.post]
    rfl
  have kept : ∀ id, view.Executed id → id ∈
      ((view.requests ++ [(view.nextPostStep, signaled)]).map Prod.fst).take view.executed := by
    intro id executed
    rw [grown, List.take_append]
    exact List.mem_append_left _ executed
  refine { sized := safe.sized, complete := safe.complete, post := ?_, published := ?_,
           ordered := ?_, named := ?_, pending := ?_, reported := ?_, done := ?_ }
  · show view.nextPostStep + edge.stepIncrement = _
    rw [safe.post, edge.step_succ]
    rfl
  · rwa [safe.post, safe.sized.tail, edge.step_lt_step] at pending
  · rw [QueueView.ids, grown, List.pairwise_append]
    refine ⟨safe.ordered, List.pairwise_singleton _ _, ?_⟩
    intro old posted new last
    obtain ⟨k, earlier, rfl⟩ := safe.named old posted
    rw [List.mem_singleton.mp last, edge.step_lt_step]
    exact earlier
  · intro id posted
    rw [QueueView.ids, grown] at posted
    rcases List.mem_append.mp posted with old | new
    · obtain ⟨k, earlier, rfl⟩ := safe.named id old
      exact ⟨k, earlier.trans (Nat.lt_succ_self _), rfl⟩
    · exact ⟨completed + view.inflight, Nat.lt_succ_self _, List.mem_singleton.mp new⟩
  · intro k low high
    rw [QueueView.ids, grown]
    rcases Nat.lt_succ_iff_lt_or_eq.mp high with below | rfl
    · exact List.mem_append_left _ (safe.pending k low below)
    · exact List.mem_append_right _ (List.mem_singleton_self _)
  · exact fun id member => kept id (safe.reported id member)
  · exact fun k passed => (safe.done k passed).imp (fun empty => empty) (kept _)

/-- An empty slice is elided. -/
theorem elide (safe : SendSafe edge fifo view completed)
    (caughtUp : view.nextPostStep = view.nextCompleteStep) (pending : view.nextPostStep < fifo.tail)
    (empty : fifo.sizes (edge.slot view.nextPostStep) = 0) :
    SendSafe edge { fifo with head := view.nextPostStep + edge.stepIncrement }
      { view with
        nextPostStep := view.nextPostStep + edge.stepIncrement
        nextCompleteStep := view.nextCompleteStep + edge.stepIncrement } (completed + 1) := by
  obtain ⟨nothing, slice⟩ := safe.empty_of_size caughtUp pending empty
  have inside : completed < fifo.published.length := (List.getElem?_eq_some_iff.mp slice).1
  have next : view.nextPostStep + edge.stepIncrement = edge.step (completed + 1) := by
    rw [safe.post, nothing, edge.step_succ]
  refine { sized := ?_, complete := ?_, post := ?_, published := ?_, ordered := safe.ordered,
           named := ?_, pending := ?_, reported := safe.reported, done := ?_ }
  · rw [next]
    exact safe.sized.release (Nat.le_succ _) inside
  · exact caughtUp ▸ next
  · show view.nextPostStep + edge.stepIncrement = edge.step (completed + 1 + view.inflight)
    rw [next, nothing]
  · show completed + 1 + view.inflight ≤ fifo.published.length
    omega
  · intro id posted
    obtain ⟨k, earlier, rfl⟩ := safe.named id posted
    exact ⟨k, Nat.lt_of_lt_of_le earlier (by show _ ≤ completed + 1 + view.inflight; omega), rfl⟩
  · intro k low high
    have below : k < completed + 1 + view.inflight := high
    omega
  · intro k passed
    rcases Nat.lt_succ_iff_lt_or_eq.mp passed with before | rfl
    · exact safe.done k before
    · exact .inl slice

/-- An accepted completion vouches for its slice and for those in flight before it. -/
theorem completeFirst (safe : SendSafe edge fifo view completed) {id next inflight : ℕ}
    {later : List ℕ} (first : view.completions = id :: later)
    (accepted : completeThrough edge view.nextCompleteStep view.inflight id =
      .ok (next, inflight)) :
    ∃ more ≥ completed, SendSafe edge { fifo with head := next }
      { view with nextCompleteStep := next, inflight := inflight, completions := later } more := by
  have executed : view.Executed id := safe.reported id (first ▸ List.mem_cons_self)
  obtain ⟨j, -, rfl⟩ := safe.named id (List.mem_of_mem_take executed)
  rw [safe.complete] at accepted
  obtain ⟨offset, inside, rfl, result⟩ := completeThrough_ok_step accepted
  obtain ⟨rfl, rfl⟩ := Prod.mk.inj result
  have total : completed + offset + 1 + (view.inflight - (offset + 1)) =
      completed + view.inflight := by omega
  have published := safe.published
  refine ⟨completed + offset + 1, by omega, ?_⟩
  refine { sized := safe.sized.release (by omega) (by omega), complete := rfl, post := ?_,
           published := ?_, ordered := safe.ordered, named := ?_, pending := ?_, reported := ?_,
           done := ?_ }
  · show view.nextPostStep = _
    rw [total]
    exact safe.post
  · rw [total]
    exact published
  · rw [total]
    exact safe.named
  · intro k low high
    rw [total] at high
    exact safe.pending k (by omega) high
  · exact fun other member => safe.reported other (first ▸ List.mem_cons_of_mem _ member)
  · intro k passed
    by_cases before : k < completed
    · exact safe.done k before
    · right
      have posted := safe.pending k (by omega) (by omega)
      exact mem_take_of_le safe.ordered (edge.step_le_step.mpr (by omega)) executed posted

/-- Every move of the proxy is safe, and moves `send_head` only forward. -/
theorem move (safe : SendSafe edge fifo view completed) {after : QueueView ℕ}
    (moved : SendMove edge fifo view next after) :
    ∃ later ≥ completed, SendSafe edge next after later := by
  cases moved with
  | stay => exact ⟨completed, le_rfl, safe⟩
  | post signaled room pending => exact ⟨completed, le_rfl, safe.postRequest pending signaled⟩
  | elide caughtUp pending empty =>
      exact ⟨completed + 1, Nat.le_succ _, safe.elide caughtUp pending empty⟩
  | complete first accepted => exact safe.completeFirst first accepted

/-- The next work request is executed; its completion may appear anywhere in the queue. -/
theorem execute (safe : SendSafe edge fifo view completed) {request : ℕ × Bool}
    (found : view.requests[view.executed]? = some request) {reports : List ℕ}
    (fresh : ∀ id ∈ reports, id = request.1 ∨ id ∈ view.completions) :
    SendSafe edge fifo { view with executed := view.executed + 1, completions := reports }
      completed := by
  have older : ∀ id, view.Executed id → id ∈ view.ids.take (view.executed + 1) := by
    intro id executed
    exact List.take_subset_take_left _ (Nat.le_succ _) executed
  have newest : request.1 ∈ view.ids.take (view.executed + 1) := by
    have at_end : view.ids[view.executed]? = some request.1 := by
      rw [QueueView.ids, List.getElem?_map, found, Option.map_some]
    rw [List.take_add_one, at_end]
    exact List.mem_append_right _ (List.mem_singleton_self _)
  refine { safe with reported := ?_, done := ?_ }
  · intro id member
    rcases fresh id member with rfl | old
    · exact newest
    · exact older id (safe.reported id old)
  · exact fun k passed => (safe.done k passed).imp (fun empty => empty) (older _)

end SendSafe

/-- The producer does not touch `send_head`. -/
theorem SendFifo.head_of_offer {edge : Edge} {fifo next : SendFifo} {payload : List UInt8}
    (step : fifo.offer edge payload = some next) : next.head = fifo.head := by
  unfold SendFifo.offer at step
  split_ifs at step
  exact Option.some.inj step ▸ rfl

/-- Storing `send_tail` touches neither `send_head` nor a size. -/
theorem SendFifo.kept_of_publish {edge : Edge} {fifo next : SendFifo}
    (step : fifo.publish edge = some next) : next.head = fifo.head ∧ next.sizes = fifo.sizes := by
  unfold SendFifo.publish at step
  split at step
  · cases step
  · exact Option.some.inj step ▸ ⟨rfl, rfl⟩

/-! ### SEND/RECV -/

namespace SendRecv

/-- The network executes the next SEND; the completion of a signaled one appears at any place in
the completion queue. -/
def completeSendAt (state : State) (position : ℕ) : Option State :=
  state.sends[state.executed]?.map fun wr =>
    { state with
      executed := state.executed + 1
      sendCq := if wr.signaled then state.sendCq.insertIdx position wr.wrId else state.sendCq }

/-- The transition function of a send proxy among unreliable surroundings. -/
def looseSenderStep (edge : Edge) (state : State) : SenderLabel ⊕ ℕ → Option State
  | .inl label => senderStep edge state label
  | .inr position => completeSendAt state position

/-- The send proxy as a worker. -/
def sendWorker (edge : Edge) : FailStop.Worker State (SenderLabel ⊕ ℕ) where
  step := looseSenderStep edge
  own
    | .inl .send | .inl (.poll _) => true
    | .inl (.offer _) | .inl .publish | .inl .execute | .inr _ => false
  throws state := match state.sender.pc with
    | .failed _ => true
    | .top | .size _ | .next _ _ | .post _ _ _ | .poll | .drain _ => false
  finishes state _ := decide (state.sender.pc = .drain 0)
  examines state := match state.sender.pc with
    | .drain (_ + 1) => true
    | .drain 0 | .top | .size _ | .next _ _ | .post _ _ _ | .poll | .failed _ => false

/-- The `k`-th slice is empty, or its SEND was executed. -/
def State.SendDone (edge : Edge) (state : State) (k : ℕ) : Prop :=
  state.sendFifo.published[k]? = some [] ∨
    edge.step k ∈ (state.sends.take state.executed).map SendWr.wrId

/-- A label with which nobody stores a size of the send FIFO. -/
def SenderLabel.Quiet : SenderLabel ⊕ ℕ → Prop
  | .inl (.offer _) => False
  | .inl .publish | .inl .send | .inl (.poll _) | .inl .execute | .inr _ => True

/-- The send proxy is safe, unless it has refused a completion at the right place. -/
structure SenderSafe (edge : Edge) (state : State) (completed : ℕ) : Prop where
  books : SendSafe edge state.sendFifo state.sendView completed
  pc : (∃ error, state.sender.pc = .failed (.completion error)) ∨
    SenderPcFacts edge state state.sender.pc

theorem initial_senderSafe (edge : Edge) : SenderSafe edge (initial edge) 0 where
  books :=
    { sized := SendFifo.fresh_sized edge
      complete := by simp [State.sendView, initial]
      post := by simp [State.sendView, initial]
      published := Nat.zero_le _
      ordered := List.Pairwise.nil
      named := by simp [QueueView.ids, State.sendView, initial]
      pending := by simp [State.sendView, initial]
      reported := by simp [State.sendView, initial]
      done := by simp }
  pc := .inr trivial

theorem SenderSafe.frame {edge : Edge} {state next : State} {completed : ℕ}
    (safe : SenderSafe edge state completed)
    (books : SendSafe edge next.sendFifo next.sendView completed)
    (same : next.sender = state.sender) (forward : state.sendFifo.tail ≤ next.sendFifo.tail) :
    SenderSafe edge next completed where
  books := books
  pc := by
    rw [same]
    exact safe.pc.imp_right fun facts => facts.frame same forward

theorem SenderSafe.step {edge : Edge} {state next : State} {completed : ℕ}
    {label : SenderLabel ⊕ ℕ} (safe : SenderSafe edge state completed)
    (taken : looseSenderStep edge state label = some next) :
    ∃ later ≥ completed, SenderSafe edge next later := by
  have books := safe.books
  rcases label with (payload | _ | _ | count | _) | position
  · obtain ⟨fifo, offered, rfl⟩ := Option.map_eq_some_iff.mp taken
    obtain ⟨sized, same, tail⟩ := books.sized.offer offered
    refine ⟨completed, le_rfl, safe.frame (books.frame sized ?_) rfl tail.ge⟩
    rw [same]
  · obtain ⟨fifo, published, rfl⟩ := Option.map_eq_some_iff.mp taken
    obtain ⟨sized, payload, grown⟩ := books.sized.publish published
    refine ⟨completed, le_rfl, safe.frame (books.frame sized ⟨[payload], grown.symm⟩) rfl ?_⟩
    exact books.sized.tail_le_of_publish published
  · rcases safe.pc with ⟨error, failed⟩ | facts
    · simp [looseSenderStep, senderStep, sendStep, failed] at taken
    · obtain ⟨moved, after⟩ := sendStep_move facts taken
      obtain ⟨later, forward, kept⟩ := books.move moved
      refine ⟨later, forward, kept, ?_⟩
      rcases after with facts | ⟨error, failed, -⟩
      · exact .inr facts
      · exact .inl ⟨error, failed⟩
  · simp only [looseSenderStep, senderStep, pollSend] at taken
    split_ifs at taken
    obtain rfl := Option.some.inj taken
    exact ⟨completed, le_rfl, books, .inr trivial⟩
  · obtain ⟨wr, found, rfl⟩ := Option.map_eq_some_iff.mp taken
    have request : state.sendView.requests[state.sendView.executed]? = some wr.request := by
      simp [State.sendView, found]
    refine ⟨completed, le_rfl, safe.frame (books.execute request ?_) rfl le_rfl⟩
    intro id member
    split_ifs at member
    · rcases List.mem_append.mp member with old | new
      · exact .inr old
      · exact .inl (List.mem_singleton.mp new)
    · exact .inr member
  · obtain ⟨wr, found, rfl⟩ := Option.map_eq_some_iff.mp taken
    have request : state.sendView.requests[state.sendView.executed]? = some wr.request := by
      simp [State.sendView, found]
    refine ⟨completed, le_rfl, safe.frame (books.execute request ?_) rfl le_rfl⟩
    intro id member
    split_ifs at member
    · exact List.eq_or_mem_of_mem_insertIdx member
    · exact .inr member

theorem senderSafe_of_reachable {edge : Edge} {state : State}
    (reach : StepSystem.Reachable (looseSenderStep edge) (initial edge) state) :
    ∃ completed, SenderSafe edge state completed := by
  refine reach.invariant (fun state => ∃ completed, SenderSafe edge state completed) ?_
    ⟨0, initial_senderSafe edge⟩
  rintro state label next ⟨completed, safe⟩ taken
  obtain ⟨later, -, kept⟩ := safe.step taken
  exact ⟨later, kept⟩

/-- The surroundings touch neither `send_head` nor, with quiet moves, a size. -/
theorem looseSenderStep_kept {edge : Edge} {state next : State} {label : SenderLabel ⊕ ℕ}
    (other : (sendWorker edge).own label = false)
    (taken : looseSenderStep edge state label = some next) :
    next.sendFifo.head = state.sendFifo.head ∧
      (SenderLabel.Quiet label → next.sendFifo.sizes = state.sendFifo.sizes) := by
  rcases label with (payload | _ | _ | count | _) | position
  · obtain ⟨fifo, offered, rfl⟩ := Option.map_eq_some_iff.mp taken
    exact ⟨SendFifo.head_of_offer offered, False.elim⟩
  · obtain ⟨fifo, published, rfl⟩ := Option.map_eq_some_iff.mp taken
    obtain ⟨head, sizes⟩ := SendFifo.kept_of_publish published
    exact ⟨head, fun _ => sizes⟩
  · cases other
  · cases other
  · obtain ⟨wr, -, rfl⟩ := Option.map_eq_some_iff.mp taken
    exact ⟨rfl, fun _ => rfl⟩
  · obtain ⟨wr, -, rfl⟩ := Option.map_eq_some_iff.mp taken
    exact ⟨rfl, fun _ => rfl⟩

/-- The SEND/RECV send proxy publishes no failed slice. -/
theorem sendWorker_failSafe (edge : Edge) :
    FailStop.FailSafe (sendWorker edge) (initial edge) .idle (fun state => state.sendFifo.head)
      (fun k => edge.base + k * edge.stepIncrement) (fun state k => state.SendDone edge k)
      (fun state => state.sendFifo.sizes) SenderLabel.Quiet := by
  refine FailStop.failSafe_of_core ?_ ?_ ?_ ?_
  · intro state reach
    obtain ⟨completed, safe⟩ := senderSafe_of_reachable reach
    refine ⟨completed, ?_, ?_⟩
    · rw [safe.books.sized.head, Edge.step, Nat.mul_comm]
    · intro k passed
      refine (safe.books.done k passed).imp_right fun executed => ?_
      simpa [QueueView.Executed, QueueView.ids, State.sendView, SendWr.request,
        Function.comp_def, List.map_take] using executed
  · intro state label next reach taken
    obtain ⟨completed, safe⟩ := senderSafe_of_reachable reach
    obtain ⟨later, forward, kept⟩ := safe.step taken
    rw [safe.books.sized.head, kept.books.sized.head, edge.step_le_step]
    exact forward
  · exact fun state label next other taken => (looseSenderStep_kept other taken).1
  · exact fun state label next other quiet taken => (looseSenderStep_kept other taken).2 quiet

end SendRecv

/-! ### WRITE+CTS -/

namespace WriteCts

/-- The network executes the next WRITE; the completion of a signaled one appears at any place in
the completion queue. -/
def completeWriteAt (state : State) (position : ℕ) : Option State :=
  state.writes[state.executed]?.map fun wr =>
    { state with
      executed := state.executed + 1
      sendCq := if wr.signaled then state.sendCq.insertIdx position wr.wrId else state.sendCq }

/-- The transition function of a send proxy among unreliable surroundings. -/
def looseSenderStep (edge : Edge) (state : State) : SenderLabel ⊕ ℕ → Option State
  | .inl label => senderStep edge state label
  | .inr position => completeWriteAt state position

/-- The send proxy as a worker. -/
def sendWorker (edge : Edge) : FailStop.Worker State (SenderLabel ⊕ ℕ) where
  step := looseSenderStep edge
  own
    | .inl .send | .inl (.poll _) => true
    | .inl (.offer _) | .inl .publish | .inl .execute | .inl (.cts _ _) | .inr _ => false
  throws state := match state.sender.pc with
    | .failed _ => true
    | .top | .size _ | .ready _ _ | .tag _ _ | .target _ _ | .next _ _ _ _ | .post _ _ _ _ _
    | .clear | .poll | .drain _ => false
  finishes state _ := decide (state.sender.pc = .drain 0)
  examines state := match state.sender.pc with
    | .drain (_ + 1) => true
    | .drain 0 | .top | .size _ | .ready _ _ | .tag _ _ | .target _ _ | .next _ _ _ _
    | .post _ _ _ _ _ | .clear | .poll | .failed _ => false

/-- The `k`-th slice is empty, or its WRITE was executed. -/
def State.SendDone (edge : Edge) (state : State) (k : ℕ) : Prop :=
  state.sendFifo.published[k]? = some [] ∨
    edge.step k ∈ (state.writes.take state.executed).map WriteWr.wrId

/-- A label with which nobody stores a size of the send FIFO. -/
def SenderLabel.Quiet : SenderLabel ⊕ ℕ → Prop
  | .inl (.offer _) => False
  | .inl .publish | .inl .send | .inl (.poll _) | .inl .execute | .inl (.cts _ _) | .inr _ => True

/-- The send proxy is safe, unless it has refused a completion at the right place. -/
structure SenderSafe (edge : Edge) (state : State) (completed : ℕ) : Prop where
  books : SendSafe edge state.sendFifo (state.sendView edge) completed
  pc : (∃ error, state.sender.pc = .failed (.completion error)) ∨
    SenderPcFacts edge state state.sender.pc

theorem initial_senderSafe (edge : Edge) : SenderSafe edge (initial edge) 0 where
  books :=
    { sized := SendFifo.fresh_sized edge
      complete := by simp [State.sendView, initial]
      post := by simp [State.sendView, initial, SendPc.uncounted]
      published := Nat.zero_le _
      ordered := List.Pairwise.nil
      named := by simp [QueueView.ids, State.sendView, initial]
      pending := by
        intro k _ high
        simp [State.sendView, initial, SendPc.uncounted] at high
      reported := by simp [State.sendView, initial]
      done := by simp }
  pc := .inr trivial

theorem SenderSafe.frame {edge : Edge} {state next : State} {completed : ℕ}
    (safe : SenderSafe edge state completed)
    (books : SendSafe edge next.sendFifo (next.sendView edge) completed)
    (same : next.sender = state.sender) (forward : state.sendFifo.tail ≤ next.sendFifo.tail) :
    SenderSafe edge next completed where
  books := books
  pc := by
    rw [same]
    exact safe.pc.imp_right fun facts => facts.frame same forward

theorem SenderSafe.step {edge : Edge} {state next : State} {completed : ℕ}
    {label : SenderLabel ⊕ ℕ} (safe : SenderSafe edge state completed)
    (taken : looseSenderStep edge state label = some next) :
    ∃ later ≥ completed, SenderSafe edge next later := by
  have books := safe.books
  rcases label with (payload | _ | _ | count | _ | ⟨slot, value⟩) | position
  · obtain ⟨fifo, offered, rfl⟩ := Option.map_eq_some_iff.mp taken
    obtain ⟨sized, same, tail⟩ := books.sized.offer offered
    refine ⟨completed, le_rfl, safe.frame (books.frame sized ?_) rfl tail.ge⟩
    rw [same]
  · obtain ⟨fifo, published, rfl⟩ := Option.map_eq_some_iff.mp taken
    obtain ⟨sized, payload, grown⟩ := books.sized.publish published
    refine ⟨completed, le_rfl, safe.frame (books.frame sized ⟨[payload], grown.symm⟩) rfl ?_⟩
    exact books.sized.tail_le_of_publish published
  · rcases safe.pc with ⟨error, failed⟩ | facts
    · simp [looseSenderStep, senderStep, sendStep, failed] at taken
    · obtain ⟨moved, after⟩ := sendStep_move facts taken
      obtain ⟨later, forward, kept⟩ := books.move moved
      refine ⟨later, forward, kept, ?_⟩
      rcases after with facts | ⟨error, failed, -⟩
      · exact .inr facts
      · exact .inl ⟨error, failed⟩
  · simp only [looseSenderStep, senderStep, pollSend] at taken
    split_ifs at taken with ready
    obtain rfl := Option.some.inj taken
    refine ⟨completed, le_rfl, ?_, .inr trivial⟩
    rw [State.sendView_goto (by rw [ready.1]; rfl) rfl]
    exact books
  · obtain ⟨wr, found, rfl⟩ := Option.map_eq_some_iff.mp taken
    have request : (state.sendView edge).requests[(state.sendView edge).executed]? =
        some wr.request := by
      simp [State.sendView, found]
    refine ⟨completed, le_rfl, safe.frame (books.execute request ?_) rfl le_rfl⟩
    intro id member
    split_ifs at member
    · rcases List.mem_append.mp member with old | new
      · exact .inr old
      · exact .inl (List.mem_singleton.mp new)
    · exact .inr member
  · obtain rfl := Option.some.inj taken
    exact ⟨completed, le_rfl, safe.frame books rfl le_rfl⟩
  · obtain ⟨wr, found, rfl⟩ := Option.map_eq_some_iff.mp taken
    have request : (state.sendView edge).requests[(state.sendView edge).executed]? =
        some wr.request := by
      simp [State.sendView, found]
    refine ⟨completed, le_rfl, safe.frame (books.execute request ?_) rfl le_rfl⟩
    intro id member
    split_ifs at member
    · exact List.eq_or_mem_of_mem_insertIdx member
    · exact .inr member

theorem senderSafe_of_reachable {edge : Edge} {state : State}
    (reach : StepSystem.Reachable (looseSenderStep edge) (initial edge) state) :
    ∃ completed, SenderSafe edge state completed := by
  refine reach.invariant (fun state => ∃ completed, SenderSafe edge state completed) ?_
    ⟨0, initial_senderSafe edge⟩
  rintro state label next ⟨completed, safe⟩ taken
  obtain ⟨later, -, kept⟩ := safe.step taken
  exact ⟨later, kept⟩

/-- The surroundings touch neither `send_head` nor, with quiet moves, a size. -/
theorem looseSenderStep_kept {edge : Edge} {state next : State} {label : SenderLabel ⊕ ℕ}
    (other : (sendWorker edge).own label = false)
    (taken : looseSenderStep edge state label = some next) :
    next.sendFifo.head = state.sendFifo.head ∧
      (SenderLabel.Quiet label → next.sendFifo.sizes = state.sendFifo.sizes) := by
  rcases label with (payload | _ | _ | count | _ | ⟨slot, value⟩) | position
  · obtain ⟨fifo, offered, rfl⟩ := Option.map_eq_some_iff.mp taken
    exact ⟨SendFifo.head_of_offer offered, False.elim⟩
  · obtain ⟨fifo, published, rfl⟩ := Option.map_eq_some_iff.mp taken
    obtain ⟨head, sizes⟩ := SendFifo.kept_of_publish published
    exact ⟨head, fun _ => sizes⟩
  · cases other
  · cases other
  · obtain ⟨wr, -, rfl⟩ := Option.map_eq_some_iff.mp taken
    exact ⟨rfl, fun _ => rfl⟩
  · obtain rfl := Option.some.inj taken
    exact ⟨rfl, fun _ => rfl⟩
  · obtain ⟨wr, -, rfl⟩ := Option.map_eq_some_iff.mp taken
    exact ⟨rfl, fun _ => rfl⟩

/-- The WRITE+CTS send proxy publishes no failed slice. -/
theorem sendWorker_failSafe (edge : Edge) :
    FailStop.FailSafe (sendWorker edge) (initial edge) .idle (fun state => state.sendFifo.head)
      (fun k => edge.base + k * edge.stepIncrement) (fun state k => state.SendDone edge k)
      (fun state => state.sendFifo.sizes) SenderLabel.Quiet := by
  refine FailStop.failSafe_of_core ?_ ?_ ?_ ?_
  · intro state reach
    obtain ⟨completed, safe⟩ := senderSafe_of_reachable reach
    refine ⟨completed, ?_, ?_⟩
    · rw [safe.books.sized.head, Edge.step, Nat.mul_comm]
    · intro k passed
      refine (safe.books.done k passed).imp_right fun executed => ?_
      simpa [QueueView.Executed, QueueView.ids, State.sendView, WriteWr.request,
        Function.comp_def, List.map_take] using executed
  · intro state label next reach taken
    obtain ⟨completed, safe⟩ := senderSafe_of_reachable reach
    obtain ⟨later, forward, kept⟩ := safe.step taken
    rw [safe.books.sized.head, kept.books.sized.head, edge.step_le_step]
    exact forward
  · exact fun state label next other taken => (looseSenderStep_kept other taken).1
  · exact fun state label next other quiet taken => (looseSenderStep_kept other taken).2 quiet

end WriteCts

end NanoNccl.Rdma
