import NanoNccl.Lib.Ledger
import NanoNccl.Rdma.Proxy

/-!
# The books of a proxy

A producer may publish slices of any size, the empty one included, as long as `send_head` leaves it
a slot. Whatever it publishes, a send proxy keeps three numbers: the step to post next, the step to
complete next and the work requests in flight between them. The books are exact when these three
agree with the FIFO and with the queue of work requests; the operations of both data planes keep
them exact, and completions reported in posting order never contradict them.
-/

namespace NanoNccl.Rdma

open Ledger

/-! ### A producer of slices of any size -/

namespace SendFifo

variable (edge : Edge) (fifo : SendFifo)

/-- The producer writes a slice of any size once `send_head` covers its slot. -/
def offer (payload : List UInt8) : Option SendFifo :=
  if fifo.staged = none ∧ fifo.tail + edge.stepIncrement ≤ fifo.head + edge.slotCount then
    some { fifo with
      data := Memory.writeBlock fifo.data (edge.sendAddr (edge.slot fifo.tail)) payload
      sizes := Function.update fifo.sizes (edge.slot fifo.tail) payload.length
      staged := some payload }
  else none

/-- Counters and sizes of the send FIFO when `completed` slices are released by `send_head`. -/
structure Sized (completed : ℕ) : Prop where
  head : fifo.head = edge.step completed
  tail : fifo.tail = edge.step fifo.published.length
  completed_le : completed ≤ fifo.published.length
  sizes : ∀ k payload, completed ≤ k → fifo.published[k]? = some payload →
    fifo.sizes (edge.slot (edge.step k)) = payload.length
  bound : fifo.published.length + fifo.staged.toList.length ≤ completed + edge.maxInflight
  staged : ∀ payload, fifo.staged = some payload →
    fifo.sizes (edge.slot (edge.step fifo.published.length)) = payload.length

end SendFifo

theorem SendFifo.fresh_sized (edge : Edge) : (SendFifo.fresh edge).Sized edge 0 where
  head := by simp [fresh]
  tail := by simp [fresh]
  completed_le := by simp [fresh]
  sizes := by simp [fresh]
  bound := by simp [fresh]
  staged := by simp [fresh]

namespace SendFifo.Sized

variable {edge : Edge} {fifo next : SendFifo} {completed : ℕ}

theorem offer (sized : fifo.Sized edge completed) {payload : List UInt8}
    (step : fifo.offer edge payload = some next) :
    next.Sized edge completed ∧ next.published = fifo.published ∧ next.tail = fifo.tail := by
  unfold SendFifo.offer at step
  split_ifs at step with guard
  obtain ⟨idle, credit⟩ := guard
  obtain rfl := Option.some.inj step
  rw [sized.head, sized.tail, edge.credit_iff] at credit
  refine ⟨{ sized with sizes := ?_, bound := ?_, staged := ?_ }, rfl, rfl⟩
  · intro k slice released found
    have inside : k < fifo.published.length := (List.getElem?_eq_some_iff.mp found).1
    have apart : edge.slot (edge.step k) ≠ edge.slot fifo.tail := by
      rw [sized.tail]
      exact edge.slot_ne completed inside.ne released (by omega) sized.completed_le credit
    exact (Function.update_of_ne apart _ _).trans (sized.sizes k slice released found)
  · exact credit
  · intro slice same
    obtain rfl : payload = slice := Option.some.inj same
    rw [← sized.tail]
    exact Function.update_self _ _ _

theorem publish (sized : fifo.Sized edge completed) (step : fifo.publish edge = some next) :
    next.Sized edge completed ∧ ∃ payload, next.published = fifo.published ++ [payload] := by
  unfold SendFifo.publish at step
  split at step
  · cases step
  case h_2 payload found =>
    obtain rfl := Option.some.inj step
    have stored := sized.staged payload found
    have room := sized.bound
    simp only [found, Option.toList_some, List.length_singleton] at room
    refine ⟨{ head := sized.head, tail := ?_, completed_le := ?_, sizes := ?_, bound := ?_,
              staged := by simp }, payload, rfl⟩
    · simp only [List.length_append, List.length_singleton]
      rw [sized.tail, edge.step_succ]
    · simp only [List.length_append, List.length_singleton]
      have := sized.completed_le
      omega
    · intro k slice released at_k
      rcases Queue.getElem?_concat_eq_some_iff.mp at_k with old | ⟨rfl, rfl⟩
      · exact sized.sizes k slice released old
      · exact stored
    · simpa using room

theorem tail_le_of_publish (sized : fifo.Sized edge completed)
    (step : fifo.publish edge = some next) : fifo.tail ≤ next.tail := by
  obtain ⟨after, payload, grown⟩ := sized.publish step
  rw [sized.tail, after.tail, edge.step_le_step, grown, List.length_append]
  exact Nat.le_add_right _ _

/-- A release by `send_head` of slices already published. -/
theorem release (sized : fifo.Sized edge completed) {later : ℕ} (forward : completed ≤ later)
    (within : later ≤ fifo.published.length) :
    { fifo with head := edge.step later }.Sized edge later where
  head := rfl
  tail := sized.tail
  completed_le := within
  sizes := fun k payload released found => sized.sizes k payload (forward.trans released) found
  bound := by
    have := sized.bound
    show fifo.published.length + fifo.staged.toList.length ≤ later + edge.maxInflight
    omega
  staged := sized.staged

end SendFifo.Sized

/-! ### Queues of work requests -/

/-- What a proxy keeps about one of its queues, and the queue. -/
structure QueueView (ι : Type) where
  /-- `next_post_step_` or `next_cts_step_`. -/
  nextPostStep : ℕ
  /-- `next_complete_step_` or `next_cts_complete_step_`. -/
  nextCompleteStep : ℕ
  /-- `inflight_` or `inflight_cts_`. -/
  inflight : ℕ
  /-- `wr_id` and signal flag of the work requests posted, oldest first. -/
  requests : List (ι × Bool)
  /-- Number of work requests executed. -/
  executed : ℕ
  /-- Completions not processed, oldest first. -/
  completions : List ι

/-- The books agree with the queue when `completed` slices are complete; the work request of the
`k`-th slice has the `wr_id` called `name k`. -/
structure QueueView.Exact {ι : Type} (edge : Edge) (name : ℕ → ι) (view : QueueView ι)
    (completed : ℕ) : Prop where
  complete : view.nextCompleteStep = edge.step completed
  post : view.nextPostStep = edge.step (completed + view.inflight)
  inflight_le : view.inflight ≤ edge.maxInflight
  queue : Balanced name completed view.inflight view.requests view.executed view.completions

/-- The numbers a proxy keeps about one of its queues fit together. -/
structure QueueNumbers (edge : Edge) (nextPostStep nextCompleteStep inflight : ℕ) : Prop where
  ordered : nextCompleteStep ≤ nextPostStep
  difference : inflight * edge.stepIncrement = nextPostStep - nextCompleteStep
  bounded : inflight ≤ edge.slotCount / edge.stepIncrement

/-- A queue within its bound spans at most the FIFO. -/
theorem QueueNumbers.span_le {edge : Edge} {nextPostStep nextCompleteStep inflight : ℕ}
    (numbers : QueueNumbers edge nextPostStep nextCompleteStep inflight) :
    nextPostStep - nextCompleteStep ≤ edge.slotCount := by
  rw [← numbers.difference]
  exact (Nat.mul_le_mul_right _ numbers.bounded).trans (Nat.div_mul_le_self _ _)

namespace QueueView.Exact

variable {ι : Type} {edge : Edge} {name : ℕ → ι} {view : QueueView ι} {completed : ℕ}

/-- The network executes the next work request. -/
theorem execute (exact : view.Exact edge name completed) {request : ι × Bool}
    (next : view.requests[view.executed]? = some request) :
    { view with
      executed := view.executed + 1
      completions :=
        if request.2 then view.completions ++ [request.1] else view.completions }.Exact edge name
      completed :=
  { exact with queue := exact.queue.execute next }

/-- The proxy posts the next work request. -/
theorem postRequest (exact : view.Exact edge name completed)
    (room : view.inflight < edge.maxInflight) (signaled : Bool) :
    { view with
      nextPostStep := view.nextPostStep + edge.stepIncrement
      inflight := view.inflight + 1
      requests := view.requests ++ [(name (completed + view.inflight), signaled)] }.Exact edge
      name completed :=
  { complete := exact.complete
    post := by
      show view.nextPostStep + edge.stepIncrement = _
      rw [exact.post, edge.step_succ]
      rfl
    inflight_le := room
    queue := exact.queue.post signaled }

/-- Nothing is in flight when the two steps meet. -/
theorem inflight_eq_zero (exact : view.Exact edge name completed)
    (caughtUp : view.nextPostStep = view.nextCompleteStep) : view.inflight = 0 := by
  rw [exact.post, exact.complete, edge.step_inj] at caughtUp
  omega

/-- The proxy skips a slice that needs no work request, while nothing is in flight. -/
theorem elide (exact : view.Exact edge name completed)
    (caughtUp : view.nextPostStep = view.nextCompleteStep) :
    { view with
      nextPostStep := view.nextPostStep + edge.stepIncrement
      nextCompleteStep := view.nextCompleteStep + edge.stepIncrement }.Exact edge name
      (completed + 1) := by
  have nothing := exact.inflight_eq_zero caughtUp
  have queue := exact.queue
  rw [nothing] at queue
  refine { complete := ?_, post := ?_, inflight_le := exact.inflight_le, queue := ?_ }
  · show view.nextCompleteStep + edge.stepIncrement = _
    rw [exact.complete, edge.step_succ]
  · show view.nextPostStep + edge.stepIncrement = edge.step (completed + 1 + view.inflight)
    rw [exact.post, edge.step_succ, nothing]
  · show Balanced name (completed + 1) view.inflight _ _ _
    rw [nothing]
    exact queue.renumber _

/-- The oldest completion names a work request in flight and settles those up to it. -/
theorem completeFirst (exact : view.Exact edge name completed) {id : ι} {later : List ι}
    (first : view.completions = id :: later) :
    ∃ offset < view.inflight, id = name (completed + offset) ∧
      { view with
        nextCompleteStep := edge.step (completed + offset + 1)
        inflight := view.inflight - (offset + 1)
        completions := later }.Exact edge name (completed + offset + 1) := by
  have queue := exact.queue
  rw [first] at queue
  obtain ⟨offset, inside, named, rest⟩ := queue.complete
  have bound := exact.inflight_le
  refine ⟨offset, inside, named, ?_⟩
  refine { complete := rfl, post := ?_, inflight_le := ?_, queue := rest }
  · show view.nextPostStep = edge.step (completed + offset + 1 + (view.inflight - (offset + 1)))
    rw [exact.post]
    congr 1
    omega
  · show view.inflight - (offset + 1) ≤ edge.maxInflight
    omega

theorem numbers (exact : view.Exact edge name completed) :
    QueueNumbers edge view.nextPostStep view.nextCompleteStep view.inflight where
  ordered := by
    rw [exact.post, exact.complete, edge.step_le_step]
    omega
  difference := by
    rw [exact.post, exact.complete]
    simp only [Edge.step, Nat.mul_add, Nat.mul_comm]
    omega
  bounded := exact.inflight_le

end QueueView.Exact

/-- A completion of a work request in flight is accepted. -/
theorem completeThrough_step {edge : Edge} {completed inflight offset : ℕ}
    (inside : offset < inflight) :
    completeThrough edge (edge.step completed) inflight (edge.step (completed + offset)) =
      .ok (edge.step (completed + offset + 1), inflight - (offset + 1)) := by
  have distance : edge.step (completed + offset) - edge.step completed =
      edge.stepIncrement * offset := by
    simp only [Edge.step, Nat.mul_add]
    omega
  unfold completeThrough
  rw [distance, Nat.mul_mod_right, Nat.mul_div_cancel_left offset edge.stepIncrement_pos,
    if_neg (by simp), edge.step_succ]
  exact if_neg (by omega)

/-- Exact books accept the oldest completion of a queue that names its requests by steps. -/
theorem QueueView.Exact.completeThrough_first {edge : Edge} {view : QueueView ℕ} {completed : ℕ}
    (exact : view.Exact edge edge.step completed) {id : ℕ} {later : List ℕ}
    (first : view.completions = id :: later) :
    ∃ offset < view.inflight,
      completeThrough edge view.nextCompleteStep view.inflight id =
        .ok (edge.step (completed + offset + 1), view.inflight - (offset + 1)) ∧
      { view with
        nextCompleteStep := edge.step (completed + offset + 1)
        inflight := view.inflight - (offset + 1)
        completions := later }.Exact edge edge.step (completed + offset + 1) := by
  obtain ⟨offset, inside, rfl, rest⟩ := exact.completeFirst first
  refine ⟨offset, inside, ?_, rest⟩
  rw [exact.complete]
  exact completeThrough_step inside

/-! ### The moves of a send proxy -/

/-- What a move of a send proxy does to its FIFO and its books. -/
inductive SendMove (edge : Edge) (fifo : SendFifo) (view : QueueView ℕ) :
    SendFifo → QueueView ℕ → Prop
  /-- Only the program counter moves. -/
  | stay : SendMove edge fifo view fifo view
  /-- The work request of the next published slice is posted. -/
  | post (signaled : Bool) (room : view.inflight < edge.maxInflight)
      (pending : view.nextPostStep < fifo.tail) :
      SendMove edge fifo view fifo
        { view with
          nextPostStep := view.nextPostStep + edge.stepIncrement
          inflight := view.inflight + 1
          requests := view.requests ++ [(view.nextPostStep, signaled)] }
  /-- The next published slice is empty and is elided while nothing is in flight. -/
  | elide (caughtUp : view.nextPostStep = view.nextCompleteStep)
      (pending : view.nextPostStep < fifo.tail)
      (empty : fifo.sizes (edge.slot view.nextPostStep) = 0) :
      SendMove edge fifo view { fifo with head := view.nextPostStep + edge.stepIncrement }
        { view with
          nextPostStep := view.nextPostStep + edge.stepIncrement
          nextCompleteStep := view.nextCompleteStep + edge.stepIncrement }
  /-- A completion is accepted. -/
  | complete {id next inflight : ℕ} {later : List ℕ} (first : view.completions = id :: later)
      (accepted : completeThrough edge view.nextCompleteStep view.inflight id =
        .ok (next, inflight)) :
      SendMove edge fifo view { fifo with head := next }
        { view with nextCompleteStep := next, inflight := inflight, completions := later }

/-- The books refuse the oldest completion. -/
def QueueView.Refuses (edge : Edge) (view : QueueView ℕ) (error : CompletionError) : Prop :=
  ∃ id later, view.completions = id :: later ∧
    completeThrough edge view.nextCompleteStep view.inflight id = .error error

/-! ### The books of a send proxy -/

/-- The books of a send proxy agree with its FIFO and its queue. -/
structure SendExact (edge : Edge) (fifo : SendFifo) (view : QueueView ℕ) (completed : ℕ) :
    Prop where
  sized : fifo.Sized edge completed
  queue : view.Exact edge edge.step completed
  published : completed + view.inflight ≤ fifo.published.length

namespace SendExact

variable {edge : Edge} {fifo next : SendFifo} {view : QueueView ℕ} {completed : ℕ}

theorem offer (exact : SendExact edge fifo view completed) {payload : List UInt8}
    (step : fifo.offer edge payload = some next) : SendExact edge next view completed := by
  obtain ⟨sized, same, -⟩ := exact.sized.offer step
  refine ⟨sized, exact.queue, ?_⟩
  rw [same]
  exact exact.published

theorem publish (exact : SendExact edge fifo view completed)
    (step : fifo.publish edge = some next) : SendExact edge next view completed := by
  obtain ⟨sized, payload, grown⟩ := exact.sized.publish step
  refine ⟨sized, exact.queue, ?_⟩
  rw [grown, List.length_append]
  exact exact.published.trans (Nat.le_add_right _ _)

/-- The next slice is published when its step is below the tail. -/
theorem below_tail (exact : SendExact edge fifo view completed)
    (pending : view.nextPostStep < fifo.tail) :
    completed + view.inflight < fifo.published.length := by
  rwa [exact.queue.post, exact.sized.tail, edge.step_lt_step] at pending

/-- The proxy posts the work request of the next published slice. -/
theorem postRequest (exact : SendExact edge fifo view completed)
    (room : view.inflight < edge.maxInflight) (pending : view.nextPostStep < fifo.tail)
    (signaled : Bool) :
    SendExact edge fifo
      { view with
        nextPostStep := view.nextPostStep + edge.stepIncrement
        inflight := view.inflight + 1
        requests := view.requests ++ [(view.nextPostStep, signaled)] } completed := by
  refine ⟨exact.sized, ?_, exact.below_tail pending⟩
  have posted := exact.queue.postRequest room signaled
  rw [← exact.queue.post] at posted
  exact posted

/-- The proxy elides the next published slice while nothing is in flight. -/
theorem elide (exact : SendExact edge fifo view completed)
    (caughtUp : view.nextPostStep = view.nextCompleteStep)
    (pending : view.nextPostStep < fifo.tail) :
    SendExact edge { fifo with head := view.nextPostStep + edge.stepIncrement }
      { view with
        nextPostStep := view.nextPostStep + edge.stepIncrement
        nextCompleteStep := view.nextCompleteStep + edge.stepIncrement } (completed + 1) := by
  have nothing := exact.queue.inflight_eq_zero caughtUp
  have inside := exact.below_tail pending
  refine ⟨?_, exact.queue.elide caughtUp, ?_⟩
  · rw [exact.queue.post, nothing, edge.step_succ]
    exact exact.sized.release (Nat.le_succ _) (by omega)
  · show completed + 1 + view.inflight ≤ fifo.published.length
    omega

/-- The oldest completion is accepted, and the books stay exact. -/
theorem completeFirst (exact : SendExact edge fifo view completed) {id : ℕ} {later : List ℕ}
    (first : view.completions = id :: later) :
    ∃ offset < view.inflight,
      completeThrough edge view.nextCompleteStep view.inflight id =
        .ok (edge.step (completed + offset + 1), view.inflight - (offset + 1)) ∧
      SendExact edge { fifo with head := edge.step (completed + offset + 1) }
        { view with
          nextCompleteStep := edge.step (completed + offset + 1)
          inflight := view.inflight - (offset + 1)
          completions := later } (completed + offset + 1) := by
  obtain ⟨offset, inside, accepted, rest⟩ := exact.queue.completeThrough_first first
  have published := exact.published
  refine ⟨offset, inside, accepted, exact.sized.release (by omega) (by omega), rest, ?_⟩
  show completed + offset + 1 + (view.inflight - (offset + 1)) ≤ fifo.published.length
  omega

/-- Every move keeps the books exact. -/
theorem move (exact : SendExact edge fifo view completed) {after : QueueView ℕ}
    (moved : SendMove edge fifo view next after) :
    ∃ later ≥ completed, SendExact edge next after later := by
  cases moved with
  | stay => exact ⟨completed, le_rfl, exact⟩
  | post signaled room pending =>
      exact ⟨completed, le_rfl, exact.postRequest room pending signaled⟩
  | elide caughtUp pending empty =>
      exact ⟨completed + 1, Nat.le_succ _, exact.elide caughtUp pending⟩
  | complete first accepted =>
      obtain ⟨offset, -, ok, rest⟩ := exact.completeFirst first
      obtain ⟨rfl, rfl⟩ := Prod.mk.inj (Except.ok.inj (accepted.symm.trans ok))
      exact ⟨completed + offset + 1, by omega, rest⟩

/-- Exact books refuse no completion. -/
theorem not_refuses (exact : SendExact edge fifo view completed) (error : CompletionError) :
    ¬ view.Refuses edge error := by
  rintro ⟨id, later, first, refused⟩
  obtain ⟨offset, -, accepted, -⟩ := exact.completeFirst first
  rw [accepted] at refused
  cases refused

/-- `send_head` is the completion step, and no step is posted before it is published. -/
theorem counters (exact : SendExact edge fifo view completed) :
    fifo.head = view.nextCompleteStep ∧ view.nextPostStep ≤ fifo.tail := by
  refine ⟨?_, ?_⟩
  · rw [exact.sized.head, exact.queue.complete]
  · rw [exact.queue.post, exact.sized.tail, edge.step_le_step]
    exact exact.published

end SendExact

/-! ### The books of a receive proxy -/

/-- The books of a receive queue agree with its FIFO: `recv_tail` is the completion step, and no
step is posted for which `recv_head` leaves no slot. -/
structure RecvExact {ι : Type} (edge : Edge) (name : ℕ → ι) (fifo : RecvFifo) (view : QueueView ι)
    (completed : ℕ) : Prop where
  queue : view.Exact edge name completed
  signaled : ∀ request ∈ view.requests, request.2 = true
  tail : fifo.tail = edge.step completed
  credit : view.nextPostStep ≤ fifo.head + edge.slotCount

namespace RecvExact

variable {ι : Type} {edge : Edge} {name : ℕ → ι} {fifo next : RecvFifo} {view : QueueView ι}
  {completed : ℕ}

/-- The consumer only moves `recv_head`, and only forward. -/
theorem frame (exact : RecvExact edge name fifo view completed) (same : next.tail = fifo.tail)
    (forward : fifo.head ≤ next.head) : RecvExact edge name next view completed where
  queue := exact.queue
  signaled := exact.signaled
  tail := same.trans exact.tail
  credit := exact.credit.trans (Nat.add_le_add_right forward _)

/-- The network consumes the next receive work request. -/
theorem execute (exact : RecvExact edge name fifo view completed) {request : ι × Bool}
    (found : view.requests[view.executed]? = some request) :
    RecvExact edge name fifo
      { view with
        executed := view.executed + 1
        completions := view.completions ++ [request.1] } completed := by
  have executed := exact.queue.execute found
  rw [if_pos (exact.signaled request (List.mem_of_getElem? found))] at executed
  exact ⟨executed, exact.signaled, exact.tail, exact.credit⟩

/-- The proxy posts the next receive work request. -/
theorem postRequest (exact : RecvExact edge name fifo view completed)
    (room : view.inflight < edge.maxInflight)
    (credit : view.nextPostStep + edge.stepIncrement ≤ fifo.head + edge.slotCount) :
    RecvExact edge name fifo
      { view with
        nextPostStep := view.nextPostStep + edge.stepIncrement
        inflight := view.inflight + 1
        requests := view.requests ++ [(name (completed + view.inflight), true)] } completed where
  queue := exact.queue.postRequest room true
  signaled := by
    intro request member
    rcases List.mem_append.mp member with old | new
    · exact exact.signaled request old
    · rw [List.mem_singleton.mp new]
  tail := exact.tail
  credit := credit

/-- The proxy skips an empty slice while nothing is in flight. -/
theorem elide (exact : RecvExact edge name fifo view completed)
    (caughtUp : view.nextPostStep = view.nextCompleteStep)
    (credit : view.nextPostStep + edge.stepIncrement ≤ fifo.head + edge.slotCount) :
    RecvExact edge name { fifo with tail := view.nextCompleteStep + edge.stepIncrement }
      { view with
        nextPostStep := view.nextPostStep + edge.stepIncrement
        nextCompleteStep := view.nextCompleteStep + edge.stepIncrement } (completed + 1) where
  queue := exact.queue.elide caughtUp
  signaled := exact.signaled
  tail := by
    show view.nextCompleteStep + edge.stepIncrement = _
    rw [exact.queue.complete, edge.step_succ]
  credit := credit

/-- The oldest completion is the expected one. -/
theorem first_eq (exact : RecvExact edge name fifo view completed) {id : ι} {later : List ι}
    (first : view.completions = id :: later) : id = name completed := by
  have queue := exact.queue.queue
  rw [first] at queue
  exact (queue.complete_oldest exact.signaled).2.1

/-- The proxy stores `recv_tail` over the slice of the oldest completion. -/
theorem completeFirst (exact : RecvExact edge name fifo view completed) {id : ι} {later : List ι}
    (first : view.completions = id :: later) :
    RecvExact edge name { fifo with tail := view.nextCompleteStep + edge.stepIncrement }
      { view with
        nextCompleteStep := view.nextCompleteStep + edge.stepIncrement
        inflight := view.inflight - 1
        completions := later } (completed + 1) := by
  have queue := exact.queue.queue
  rw [first] at queue
  obtain ⟨busy, -, rest⟩ := queue.complete_oldest exact.signaled
  have next : view.nextCompleteStep + edge.stepIncrement = edge.step (completed + 1) := by
    rw [exact.queue.complete, edge.step_succ]
  have bound := exact.queue.inflight_le
  refine ⟨⟨next, ?_, ?_, rest⟩, exact.signaled, next, exact.credit⟩
  · show view.nextPostStep = edge.step (completed + 1 + (view.inflight - 1))
    rw [exact.queue.post]
    congr 1
    omega
  · show view.inflight - 1 ≤ edge.maxInflight
    omega

end RecvExact

end NanoNccl.Rdma
