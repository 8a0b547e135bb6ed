import NanoNccl.Lib.FailStop
import NanoNccl.Rdma.ReceiverBooks
import NanoNccl.Rdma.SendFailure

/-!
# Failures of the receive proxies

As for the send proxies, completions may be reported in any order, late, or not at all. The network
consumes the posted receive work requests in order, each of them reports at most once, and
`recv_tail` never passes a slice whose work request was not consumed. Only slices elided by
`elide_zero_payload` have none.
-/

namespace NanoNccl.Rdma

open StepSystem

theorem RecvFifo.sizes_of_advance {fifo next : RecvFifo} {head : ℕ}
    (step : fifo.advance head = some next) : next.sizes = fifo.sizes := by
  unfold RecvFifo.advance at step
  split_ifs at step
  exact Option.some.inj step ▸ rfl

/-! ### SEND/RECV -/

namespace SendRecv

/-- The receive proxy with the steps of the slices it posted and of those it elided, which its
work requests do not tell. -/
structure TracedState where
  /-- The receive proxy. -/
  eliding : ElidingState
  /-- Steps of the posted receive work requests, oldest first. -/
  posted : List ℕ
  /-- Steps of the elided slices. -/
  elided : List ℕ

/-- The receive proxy is constructed on a fresh FIFO. -/
def initialTraced (edge : Edge) : TracedState := ⟨initialEliding edge, [], []⟩

/-- The network consumes the next receive work request; its completion appears at any place in the
completion queue. -/
def arriveAt (state : State) (byteLen position : ℕ) : Option State :=
  state.recvWrs[state.executed]?.map fun wr =>
    { state with
      executed := state.executed + 1
      recvCq := state.recvCq.insertIdx position ⟨wr.wrId, byteLen⟩ }

/-- Keep track of a move of the proxy itself. -/
def TracedState.track (state : TracedState) (next : ElidingState) : TracedState where
  eliding := next
  posted :=
    if next.core.recvWrs.length = state.eliding.core.recvWrs.length then state.posted
    else state.posted ++ [state.eliding.core.receiver.nextPostStep]
  elided :=
    if state.eliding.elide = some .storeTail then
      state.elided ++ [state.eliding.core.receiver.nextCompleteStep]
    else state.elided

/-- The transition function of a receive proxy among unreliable surroundings. -/
def looseReceiverStep (edge : Edge) (elideZeroPayload : Bool) (state : TracedState) :
    ReceiverLabel ⊕ (ℕ × ℕ) → Option TracedState
  | .inl .recv => (recvStepEliding edge elideZeroPayload state.eliding).map state.track
  | .inl label =>
      (receiverStep edge elideZeroPayload state.eliding label).map fun next =>
        { state with eliding := next }
  | .inr (byteLen, position) =>
      (arriveAt state.eliding.core byteLen position).map fun core =>
        { state with eliding := { state.eliding with core := core } }

/-- The receive proxy as a worker. -/
def recvWorker (edge : Edge) (elideZeroPayload : Bool) :
    FailStop.Worker TracedState (ReceiverLabel ⊕ (ℕ × ℕ)) where
  step := looseReceiverStep edge elideZeroPayload
  own
    | .inl .recv | .inl (.poll _) => true
    | .inl (.arrive _) | .inl (.announce _ _) | .inl (.release _) | .inr _ => false
  throws state := decide (state.eliding.core.receiver.pc = .unexpectedSlot)
  finishes state next :=
    decide (state.eliding.core.receiver.pc = .drain 0) ||
      (!state.eliding.core.receiver.prepared && next.eliding.core.receiver.prepared)
  examines state := match state.eliding.core.receiver.pc with
    | .drain (_ + 1) => true
    | .drain 0 | .test | .post | .poll | .storeTail _ | .unexpectedSlot => false

/-- The `k`-th slice was elided, or its receive work request was consumed. -/
def TracedState.RecvDone (edge : Edge) (elideZeroPayload : Bool) (state : TracedState) (k : ℕ) :
    Prop :=
  elideZeroPayload = true ∧ edge.step k ∈ state.elided ∨
    edge.step k ∈ state.posted.take state.eliding.core.executed

/-- A label with which nobody but the proxy stores a size of the receive FIFO. -/
def ReceiverLabel.Quiet : ReceiverLabel ⊕ (ℕ × ℕ) → Prop
  | .inl (.announce _ _) => False
  | .inl .recv | .inl (.poll _) | .inl (.arrive _) | .inl (.release _) | .inr _ => True

/-- Every slice `recv_tail` has passed was elided or received. -/
structure ReceiverSafe (edge : Edge) (elideZeroPayload : Bool) (state : TracedState)
    (completed : ℕ) : Prop where
  tail : state.eliding.core.recvFifo.tail = edge.step completed
  complete : state.eliding.core.receiver.nextCompleteStep = edge.step completed
  post : state.eliding.core.receiver.nextPostStep =
    edge.step (completed + state.eliding.core.receiver.inflight)
  length : state.eliding.core.recvWrs.length = state.posted.length
  executed_le : state.eliding.core.executed ≤ state.posted.length
  flight : ∃ settled, state.posted = settled ++
      (List.range state.eliding.core.receiver.inflight).map (fun i => edge.step (completed + i)) ∧
    settled.length + (state.eliding.core.receiver.pc.taken 0).length +
      state.eliding.core.recvCq.length ≤ state.eliding.core.executed
  done : ∀ k < completed, state.RecvDone edge elideZeroPayload k
  tests : ElideFacts state.eliding.core state.eliding.elide
  eliding : state.eliding.elide ≠ none → elideZeroPayload = true

theorem initial_receiverSafe (edge : Edge) (elideZeroPayload : Bool) :
    ReceiverSafe edge elideZeroPayload (initialTraced edge) 0 where
  tail := by simp [initialTraced, initialEliding, initial, RecvFifo.fresh]
  complete := by simp [initialTraced, initialEliding, initial]
  post := by simp [initialTraced, initialEliding, initial]
  length := rfl
  executed_le := le_rfl
  flight := ⟨[], rfl, le_rfl⟩
  done := by simp
  tests := trivial
  eliding := fun busy => absurd rfl busy

/-- Consumed work requests stay consumed. -/
theorem TracedState.RecvDone.frame {edge : Edge} {elideZeroPayload : Bool}
    {state next : TracedState}
    {k : ℕ} (done : state.RecvDone edge elideZeroPayload k) (elided : state.elided ⊆ next.elided)
    (posted : state.posted <+: next.posted)
    (forward : state.eliding.core.executed ≤ next.eliding.core.executed) :
    next.RecvDone edge elideZeroPayload k := by
  rcases done with ⟨enabled, skipped⟩ | consumed
  · exact .inl ⟨enabled, elided skipped⟩
  · obtain ⟨suffix, extended⟩ := posted
    refine .inr (List.take_subset_take_left _ forward ?_)
    rw [← extended, List.take_append]
    exact List.mem_append_left _ consumed

/-- A move that neither posts nor publishes, and reports no more completions than work requests
it consumes. -/
theorem ReceiverSafe.frame {edge : Edge} {elideZeroPayload : Bool} {state : TracedState}
    {completed : ℕ} {next : ElidingState}
    (safe : ReceiverSafe edge elideZeroPayload state completed)
    (tail : next.core.recvFifo.tail = state.eliding.core.recvFifo.tail)
    (post : next.core.receiver.nextPostStep = state.eliding.core.receiver.nextPostStep)
    (complete : next.core.receiver.nextCompleteStep = state.eliding.core.receiver.nextCompleteStep)
    (inflight : next.core.receiver.inflight = state.eliding.core.receiver.inflight)
    (posted : next.core.recvWrs = state.eliding.core.recvWrs)
    (forward : state.eliding.core.executed ≤ next.core.executed)
    (executed_le : next.core.executed ≤ state.eliding.core.recvWrs.length)
    (reports : (next.core.receiver.pc.taken 0).length + next.core.recvCq.length +
        state.eliding.core.executed ≤
      (state.eliding.core.receiver.pc.taken 0).length + state.eliding.core.recvCq.length +
        next.core.executed)
    (tests : ElideFacts next.core next.elide)
    (eliding : next.elide ≠ none → elideZeroPayload = true) :
    ReceiverSafe edge elideZeroPayload { state with eliding := next } completed where
  tail := tail.trans safe.tail
  complete := complete.trans safe.complete
  post := by
    dsimp only
    rw [post, inflight]
    exact safe.post
  length := by
    dsimp only
    rw [posted]
    exact safe.length
  executed_le := safe.length ▸ executed_le
  flight := by
    obtain ⟨settled, split, counted⟩ := safe.flight
    refine ⟨settled, ?_, ?_⟩
    · dsimp only
      rw [inflight]
      exact split
    · dsimp only
      omega
  done := fun k passed =>
    (safe.done k passed).frame (List.Subset.refl _) (List.prefix_refl _) forward
  tests := tests
  eliding := eliding

/-- `pre_post_recv` posts a work request for the next step. -/
theorem ReceiverSafe.post_request {edge : Edge} {elideZeroPayload : Bool} {state : TracedState}
    {completed : ℕ} (safe : ReceiverSafe edge elideZeroPayload state completed)
    (nothing : (state.eliding.core.receiver.pc.taken 0).length = 0) (wr : RecvWr) :
    ReceiverSafe edge elideZeroPayload
      { eliding :=
          { core :=
              { state.eliding.core with
                recvWrs := state.eliding.core.recvWrs ++ [wr]
                receiver := { state.eliding.core.receiver with
                  nextPostStep := state.eliding.core.receiver.nextPostStep + edge.stepIncrement
                  inflight := state.eliding.core.receiver.inflight + 1
                  pc := .test } }
            elide := none }
        posted := state.posted ++ [state.eliding.core.receiver.nextPostStep]
        elided := state.elided } completed where
  tail := safe.tail
  complete := safe.complete
  post := by
    rw [safe.post, ← Nat.add_assoc, edge.step_succ]
  length := by simp [safe.length]
  executed_le := by
    rw [List.length_append]
    exact safe.executed_le.trans (Nat.le_add_right _ _)
  flight := by
    obtain ⟨settled, split, counted⟩ := safe.flight
    refine ⟨settled, ?_, ?_⟩
    · simp [split, List.range_succ, safe.post]
    · dsimp only [RecvPc.taken, List.length_nil]
      omega
  done := fun k passed =>
    (safe.done k passed).frame (List.Subset.refl _) (List.prefix_append _ _) le_rfl
  tests := trivial
  eliding := fun busy => absurd rfl busy

/-- `recv_tail` is stored after a completion: the work request of its slice was consumed. -/
theorem ReceiverSafe.store_tail {edge : Edge} {elideZeroPayload : Bool} {state : TracedState}
    {completed left : ℕ} (safe : ReceiverSafe edge elideZeroPayload state completed)
    (at_pc : state.eliding.core.receiver.pc = .storeTail left) :
    ReceiverSafe edge elideZeroPayload
      { state with
        eliding :=
          { core :=
              { state.eliding.core with
                recvFifo := { state.eliding.core.recvFifo with
                  tail := state.eliding.core.receiver.nextCompleteStep + edge.stepIncrement }
                receiver := { state.eliding.core.receiver with
                  nextCompleteStep :=
                    state.eliding.core.receiver.nextCompleteStep + edge.stepIncrement
                  inflight := state.eliding.core.receiver.inflight - 1
                  pc := .drain left } }
            elide := none } } (completed + 1) := by
  obtain ⟨settled, split, counted⟩ := safe.flight
  rw [at_pc] at counted
  simp only [RecvPc.taken, List.length_singleton] at counted
  have total : state.posted.length = settled.length + state.eliding.core.receiver.inflight := by
    simp [split]
  -- The completion stands for a consumed work request that is still in flight.
  obtain ⟨inflight, some_flight⟩ : ∃ n, state.eliding.core.receiver.inflight = n + 1 :=
    ⟨state.eliding.core.receiver.inflight - 1, by have := safe.executed_le; omega⟩
  have settles : state.posted = (settled ++ [edge.step completed]) ++
      (List.range inflight).map (fun i => edge.step (completed + 1 + i)) := by
    rw [split, some_flight, List.range_succ_eq_map]
    simp [Function.comp_def, Nat.add_assoc, Nat.add_comm 1]
  have consumed : edge.step completed ∈ state.posted.take state.eliding.core.executed := by
    refine List.take_subset_take_left _ (show settled.length + 1 ≤ _ by omega) ?_
    rw [settles, List.take_append_of_le_length (by simp), List.take_of_length_le (by simp)]
    simp
  exact
    { tail := by
        dsimp only
        rw [safe.complete, edge.step_succ]
      complete := by
        dsimp only
        rw [safe.complete, edge.step_succ]
      post := by
        dsimp only
        rw [safe.post, some_flight]
        congr 1
        omega
      length := safe.length
      executed_le := safe.executed_le
      flight := by
        refine ⟨settled ++ [edge.step completed], ?_, ?_⟩
        · dsimp only
          rw [some_flight, Nat.add_sub_cancel]
          exact settles
        · simp only [RecvPc.taken, List.length_nil, List.length_append, List.length_singleton]
          omega
      done := by
        intro k passed
        rcases Nat.lt_succ_iff_lt_or_eq.mp passed with earlier | rfl
        · exact safe.done k earlier
        · exact .inr consumed
      tests := trivial
      eliding := fun busy => absurd rfl busy }

/-- `recv_tail` is stored past an elided slice. -/
theorem ReceiverSafe.elide_tail {edge : Edge} {state : TracedState} {completed : ℕ}
    (safe : ReceiverSafe edge true state completed)
    (posting : state.eliding.core.receiver.pc = .post)
    (at_head : state.eliding.core.receiver.nextPostStep =
      state.eliding.core.receiver.nextCompleteStep) :
    ReceiverSafe edge true
      { state with
        eliding :=
          { core :=
              { state.eliding.core with
                recvFifo := { state.eliding.core.recvFifo with
                  tail := state.eliding.core.receiver.nextCompleteStep + edge.stepIncrement }
                receiver := { state.eliding.core.receiver with
                  nextPostStep := state.eliding.core.receiver.nextPostStep + edge.stepIncrement
                  nextCompleteStep :=
                    state.eliding.core.receiver.nextCompleteStep + edge.stepIncrement
                  pc := .test } }
            elide := none }
        elided := state.elided ++ [state.eliding.core.receiver.nextCompleteStep] }
      (completed + 1) := by
  have empty : state.eliding.core.receiver.inflight = 0 := by
    rw [safe.post, safe.complete, edge.step_inj] at at_head
    omega
  obtain ⟨settled, split, counted⟩ := safe.flight
  rw [posting] at counted
  exact
    { tail := by
        dsimp only
        rw [safe.complete, edge.step_succ]
      complete := by
        dsimp only
        rw [safe.complete, edge.step_succ]
      post := by
        dsimp only
        rw [safe.post, empty, edge.step_succ]
      length := safe.length
      executed_le := safe.executed_le
      flight := by
        refine ⟨settled, ?_, counted⟩
        dsimp only
        rw [split, empty]
        rfl
      done := by
        intro k passed
        rcases Nat.lt_succ_iff_lt_or_eq.mp passed with earlier | rfl
        · exact (safe.done k earlier).frame (List.subset_append_left _ _) (List.prefix_refl _)
            le_rfl
        · refine .inl ⟨rfl, List.mem_append_right _ ?_⟩
          rw [safe.complete]
          exact List.mem_singleton_self _
      tests := trivial
      eliding := fun busy => absurd rfl busy }

/-- A move of the proxy that neither posts nor publishes, nor takes up a completion twice. -/
theorem ReceiverSafe.quiet {edge : Edge} {elideZeroPayload : Bool} {state : TracedState}
    {completed : ℕ} {next : ElidingState}
    (safe : ReceiverSafe edge elideZeroPayload state completed)
    (outside : state.eliding.elide ≠ some .storeTail)
    (tail : next.core.recvFifo.tail = state.eliding.core.recvFifo.tail)
    (post : next.core.receiver.nextPostStep = state.eliding.core.receiver.nextPostStep)
    (complete : next.core.receiver.nextCompleteStep = state.eliding.core.receiver.nextCompleteStep)
    (inflight : next.core.receiver.inflight = state.eliding.core.receiver.inflight)
    (posted : next.core.recvWrs = state.eliding.core.recvWrs)
    (executed : next.core.executed = state.eliding.core.executed)
    (reports : (next.core.receiver.pc.taken 0).length + next.core.recvCq.length ≤
      (state.eliding.core.receiver.pc.taken 0).length + state.eliding.core.recvCq.length)
    (tests : ElideFacts next.core next.elide)
    (eliding : next.elide ≠ none → elideZeroPayload = true) :
    ReceiverSafe edge elideZeroPayload (state.track next) completed := by
  have same : state.track next = { state with eliding := next } := by
    simp [TracedState.track, posted, outside]
  rw [same]
  refine safe.frame tail post complete inflight posted executed.ge ?_ ?_ tests eliding
  · rw [executed]
    exact safe.length ▸ safe.executed_le
  · omega

/-- Every move of the proxy outside its elision tests is safe. -/
theorem ReceiverSafe.recv {edge : Edge} {elideZeroPayload : Bool} {state : TracedState}
    {core : State} {completed : ℕ} (safe : ReceiverSafe edge elideZeroPayload state completed)
    (test : state.eliding.elide = none) (step : recvStep edge state.eliding.core = some core) :
    ∃ later ≥ completed, ReceiverSafe edge elideZeroPayload
      (state.track ⟨core, if elideZeroPayload ∧ core.receiver.pc = .post then some .load
        else none⟩) later := by
  have outside : state.eliding.elide ≠ some .storeTail := by simp [test]
  have tests : ElideFacts core
      (if elideZeroPayload ∧ core.receiver.pc = .post then some .load else none) := by
    split_ifs with posting
    · exact posting.2
    · trivial
  have enabled : (if elideZeroPayload ∧ core.receiver.pc = .post then some ElidePc.load
      else none) ≠ none → elideZeroPayload = true := by
    split_ifs with posting
    · exact fun _ => posting.1
    · exact fun busy => absurd rfl busy
  unfold recvStep at step
  cases at_pc : state.eliding.core.receiver.pc <;> simp only [at_pc] at step
  case test =>
    split_ifs at step
    all_goals
      obtain rfl := Option.some.inj step
      exact ⟨completed, le_rfl, safe.quiet outside rfl rfl rfl rfl rfl rfl
        (by simp [State.recvGoto, at_pc, RecvPc.taken]) tests enabled⟩
  case post =>
    obtain rfl := Option.some.inj step
    refine ⟨completed, le_rfl, ?_⟩
    have posted := safe.post_request (by simp [at_pc, RecvPc.taken])
      (recvWrOf edge (edge.slot state.eliding.core.receiver.nextPostStep))
    simpa [TracedState.track, test] using posted
  case drain left =>
    cases left with
    | zero =>
        obtain rfl := Option.some.inj step
        exact ⟨completed, le_rfl, safe.quiet outside rfl rfl rfl rfl rfl rfl
          (by simp [State.recvGoto, at_pc, RecvPc.taken]) tests enabled⟩
    | succ left =>
        cases waiting : state.eliding.core.recvCq with
        | nil => simp [waiting] at step
        | cons wc later =>
            simp only [waiting] at step
            split_ifs at step
            · obtain rfl := Option.some.inj step
              exact ⟨completed, le_rfl, safe.quiet outside rfl rfl rfl rfl rfl rfl
                (by simp [State.recvGoto, at_pc, RecvPc.taken]) tests enabled⟩
            · obtain rfl := Option.some.inj step
              refine ⟨completed, le_rfl, safe.quiet outside rfl rfl rfl rfl rfl rfl ?_ tests
                enabled⟩
              simp [State.recvGoto, at_pc, waiting, RecvPc.taken, Nat.add_comm]
  case storeTail left =>
    obtain rfl := Option.some.inj step
    refine ⟨completed + 1, Nat.le_succ _, ?_⟩
    simpa [TracedState.track, test] using safe.store_tail at_pc
  case poll | unexpectedSlot => cases step

/-- Every move of the proxy is safe. -/
theorem ReceiverSafe.recvEliding {edge : Edge} {elideZeroPayload : Bool} {state : TracedState}
    {next : ElidingState} {completed : ℕ}
    (safe : ReceiverSafe edge elideZeroPayload state completed)
    (step : recvStepEliding edge elideZeroPayload state.eliding = some next) :
    ∃ later ≥ completed, ReceiverSafe edge elideZeroPayload (state.track next) later := by
  have tests := safe.tests
  have enabled := safe.eliding
  unfold recvStepEliding at step
  cases test : state.eliding.elide with
  | none =>
      simp only [test] at step
      obtain ⟨core, moved, rfl⟩ := Option.map_eq_some_iff.mp step
      exact safe.recv test moved
  | some elidePc =>
      obtain rfl := enabled (by simp [test])
      rw [test] at tests
      cases elidePc with
      | load =>
          have outside : state.eliding.elide ≠ some .storeTail := by simp [test]
          simp only [test] at step
          split_ifs at step with empty
          · obtain rfl := Option.some.inj step
            exact ⟨completed, le_rfl, safe.quiet outside rfl rfl rfl rfl rfl rfl le_rfl
              ⟨tests, empty.1⟩ (fun _ => rfl)⟩
          · obtain rfl := Option.some.inj step
            exact ⟨completed, le_rfl, safe.quiet outside rfl rfl rfl rfl rfl rfl le_rfl
              tests (fun _ => rfl)⟩
      | storeSize =>
          have outside : state.eliding.elide ≠ some .storeTail := by simp [test]
          simp only [test] at step
          obtain rfl := Option.some.inj step
          exact ⟨completed, le_rfl, safe.quiet outside rfl rfl rfl rfl rfl rfl le_rfl
            tests (fun _ => rfl)⟩
      | storeTail =>
          simp only [test] at step
          obtain rfl := Option.some.inj step
          refine ⟨completed + 1, Nat.le_succ _, ?_⟩
          simpa [TracedState.track, test] using safe.elide_tail tests.1 tests.2
      | check =>
          have outside : state.eliding.elide ≠ some .storeTail := by simp [test]
          have posting : state.eliding.core.receiver.pc = .post := tests
          simp only [test] at step
          split_ifs at step
          · obtain rfl := Option.some.inj step
            refine ⟨completed, le_rfl, safe.quiet outside ?_ ?_ ?_ ?_ ?_ ?_ ?_ trivial
              (fun _ => rfl)⟩
            all_goals
              dsimp only [State.endPosting]
              split_ifs
              all_goals simp [State.recvGoto, posting, RecvPc.taken]
          · obtain rfl := Option.some.inj step
            exact ⟨completed, le_rfl, safe.quiet outside rfl rfl rfl rfl rfl rfl le_rfl
              trivial (fun _ => rfl)⟩

/-- A consumed work request reports once. -/
theorem ReceiverSafe.consume {edge : Edge} {elideZeroPayload : Bool} {state : TracedState}
    {completed : ℕ} {wr : RecvWr} {recvCq : List RecvWc}
    (safe : ReceiverSafe edge elideZeroPayload state completed)
    (found : state.eliding.core.recvWrs[state.eliding.core.executed]? = some wr)
    (reports : recvCq.length ≤ state.eliding.core.recvCq.length + 1) :
    ReceiverSafe edge elideZeroPayload
      { state with
        eliding := { state.eliding with
          core := { state.eliding.core with
            executed := state.eliding.core.executed + 1
            recvCq := recvCq } } } completed := by
  have posted := (List.getElem?_eq_some_iff.mp found).1
  refine safe.frame rfl rfl rfl rfl rfl (Nat.le_succ _) posted ?_ (safe.tests.frame rfl)
    safe.eliding
  dsimp only
  omega

/-- Every move of the proxy and of its surroundings is safe, and `recv_tail` never goes back. -/
theorem ReceiverSafe.step {edge : Edge} {elideZeroPayload : Bool} {state next : TracedState}
    {completed : ℕ} {label : ReceiverLabel ⊕ (ℕ × ℕ)}
    (safe : ReceiverSafe edge elideZeroPayload state completed)
    (taken : looseReceiverStep edge elideZeroPayload state label = some next) :
    ∃ later ≥ completed, ReceiverSafe edge elideZeroPayload next later := by
  have executed_le := safe.length ▸ safe.executed_le
  rcases label with (_ | count | byteLen | ⟨slot, size⟩ | head) | ⟨byteLen, position⟩
  · obtain ⟨eliding, moved, rfl⟩ := Option.map_eq_some_iff.mp taken
    exact safe.recvEliding moved
  · simp only [looseReceiverStep, receiverStep, pollRecv, Option.map_eq_some_iff,
      Option.ite_none_right_eq_some, Option.some.injEq] at taken
    obtain ⟨eliding, ⟨-, core, ⟨ready, rfl⟩, rfl⟩, rfl⟩ := taken
    exact ⟨completed, le_rfl, safe.frame rfl rfl rfl rfl rfl le_rfl executed_le
      (by simp [State.recvGoto, ready.1, RecvPc.taken]) trivial (fun busy => absurd rfl busy)⟩
  · simp only [looseReceiverStep, receiverStep, arrive, Option.map_eq_some_iff] at taken
    obtain ⟨eliding, ⟨core, ⟨wr, found, rfl⟩, rfl⟩, rfl⟩ := taken
    exact ⟨completed, le_rfl, safe.consume found (by simp)⟩
  · obtain rfl := Option.some.inj taken
    exact ⟨completed, le_rfl, safe.frame rfl rfl rfl rfl rfl le_rfl executed_le le_rfl
      (safe.tests.frame rfl) safe.eliding⟩
  · simp only [looseReceiverStep, receiverStep, Option.map_eq_some_iff] at taken
    obtain ⟨eliding, ⟨fifo, released, rfl⟩, rfl⟩ := taken
    exact ⟨completed, le_rfl, safe.frame (RecvFifo.advance_counters released).1 rfl rfl rfl rfl
      le_rfl executed_le le_rfl (safe.tests.frame rfl) safe.eliding⟩
  · simp only [looseReceiverStep, arriveAt, Option.map_eq_some_iff] at taken
    obtain ⟨core, ⟨wr, found, rfl⟩, rfl⟩ := taken
    exact ⟨completed, le_rfl, safe.consume found List.length_insertIdx_le_succ⟩

theorem receiverSafe_of_reachable {edge : Edge} {elideZeroPayload : Bool} {state : TracedState}
    (reach : StepSystem.Reachable (looseReceiverStep edge elideZeroPayload) (initialTraced edge)
      state) :
    ∃ completed, ReceiverSafe edge elideZeroPayload state completed := by
  refine reach.invariant
    (fun state => ∃ completed, ReceiverSafe edge elideZeroPayload state completed)
    ?_ ⟨0, initial_receiverSafe edge elideZeroPayload⟩
  rintro state label next ⟨completed, safe⟩ taken
  obtain ⟨later, -, kept⟩ := safe.step taken
  exact ⟨later, kept⟩

/-- The surroundings touch neither `recv_tail` nor, with quiet moves, a size. -/
theorem looseReceiverStep_kept {edge : Edge} {elideZeroPayload : Bool} {state next : TracedState}
    {label : ReceiverLabel ⊕ (ℕ × ℕ)} (other : (recvWorker edge elideZeroPayload).own label = false)
    (taken : looseReceiverStep edge elideZeroPayload state label = some next) :
    next.eliding.core.recvFifo.tail = state.eliding.core.recvFifo.tail ∧
      (ReceiverLabel.Quiet label →
        next.eliding.core.recvFifo.sizes = state.eliding.core.recvFifo.sizes) := by
  rcases label with (_ | count | byteLen | ⟨slot, size⟩ | head) | ⟨byteLen, position⟩
  · cases other
  · cases other
  · simp only [looseReceiverStep, receiverStep, arrive, Option.map_eq_some_iff] at taken
    obtain ⟨eliding, ⟨core, ⟨wr, -, rfl⟩, rfl⟩, rfl⟩ := taken
    exact ⟨rfl, fun _ => rfl⟩
  · obtain rfl := Option.some.inj taken
    exact ⟨rfl, False.elim⟩
  · simp only [looseReceiverStep, receiverStep, Option.map_eq_some_iff] at taken
    obtain ⟨eliding, ⟨fifo, released, rfl⟩, rfl⟩ := taken
    exact ⟨(RecvFifo.advance_counters released).1, fun _ => RecvFifo.sizes_of_advance released⟩
  · simp only [looseReceiverStep, arriveAt, Option.map_eq_some_iff] at taken
    obtain ⟨core, ⟨wr, -, rfl⟩, rfl⟩ := taken
    exact ⟨rfl, fun _ => rfl⟩

/-- The SEND/RECV receive proxy publishes no failed slice. -/
theorem recvWorker_failSafe (edge : Edge) (elideZeroPayload : Bool) :
    FailStop.FailSafe (recvWorker edge elideZeroPayload) (initialTraced edge) .preparing
      (fun state => state.eliding.core.recvFifo.tail)
      (fun k => edge.base + k * edge.stepIncrement)
      (fun state k => state.RecvDone edge elideZeroPayload k)
      (fun state => state.eliding.core.recvFifo.sizes) ReceiverLabel.Quiet := by
  refine FailStop.failSafe_of_core ?_ ?_ ?_ ?_
  · intro state reach
    obtain ⟨completed, safe⟩ := receiverSafe_of_reachable reach
    exact ⟨completed, by rw [safe.tail, Edge.step, Nat.mul_comm], safe.done⟩
  · intro state label next reach taken
    obtain ⟨completed, safe⟩ := receiverSafe_of_reachable reach
    obtain ⟨later, forward, kept⟩ := safe.step taken
    rw [safe.tail, kept.tail, edge.step_le_step]
    exact forward
  · exact fun state label next other taken => (looseReceiverStep_kept other taken).1
  · exact fun state label next other quiet taken => (looseReceiverStep_kept other taken).2 quiet

end SendRecv

/-! ### WRITE+CTS -/

namespace WriteCts

/-- The network consumes the next receive work request, with this immediate data; its completion
appears at any place in the completion queue. -/
def arriveImmAt (state : State) (immData position : ℕ) : Option State :=
  state.recvWrs[state.executed]?.map fun step =>
    { state with
      executed := state.executed + 1
      recvCq := state.recvCq.insertIdx position (.imm step immData) }

/-- The network completes the next CTS write; a signaled one is reported at any place in the
completion queue. -/
def completeCtsAt (state : State) (position : ℕ) : Option State :=
  state.ctsWrites[state.ctsAcked]?.map fun wr =>
    { state with
      ctsAcked := state.ctsAcked + 1
      recvCq :=
        if wr.signaled then state.recvCq.insertIdx position (.cts wr.wrId) else state.recvCq }

/-- The transition function of a receive proxy among unreliable surroundings. -/
def looseReceiverStep (edge : Edge) (state : State) :
    ReceiverLabel ⊕ (Option ℕ × ℕ) → Option State
  | .inl label => receiverStep edge state label
  | .inr (some immData, position) => arriveImmAt state immData position
  | .inr (none, position) => completeCtsAt state position

/-- The receive proxy as a worker. -/
def recvWorker (edge : Edge) : FailStop.Worker State (ReceiverLabel ⊕ (Option ℕ × ℕ)) where
  step := looseReceiverStep edge
  own
    | .inl .recv | .inl (.poll _) => true
    | .inl (.arrive _) | .inl .completeCts | .inl (.release _) | .inr _ => false
  throws state := match state.receiver.pc with
    | .failed _ => true
    | .ctsTest | .ctsShadow | .ctsPost | .immTest | .immPost | .poll | .drain _ | .storeTail _ =>
        false
  finishes state next :=
    decide (state.receiver.pc = .drain 0) || (!state.receiver.prepared && next.receiver.prepared)
  examines state := match state.receiver.pc with
    | .drain (_ + 1) => true
    | .drain 0 | .ctsTest | .ctsShadow | .ctsPost | .immTest | .immPost | .poll | .storeTail _
    | .failed _ => false

/-- A WRITE consumed the receive work request of the `k`-th slice. -/
def State.RecvDone (edge : Edge) (state : State) (k : ℕ) : Prop :=
  edge.step k ∈ state.recvWrs.take state.executed

/-- Steps of the consumed work requests the proxy has been told of and has not published. -/
def State.reported (state : State) : List ℕ :=
  state.receiver.pc.taken state.receiver.nextCompleteStep ++
    state.recvCq.filterMap RecvWc.immStep?

/-- Every slice `recv_tail` has passed was received. -/
structure ReceiverSafe (edge : Edge) (state : State) (completed : ℕ) : Prop where
  tail : state.recvFifo.tail = edge.step completed
  complete : state.receiver.nextCompleteStep = edge.step completed
  consumed : ∀ step ∈ state.reported, step ∈ state.recvWrs.take state.executed
  done : ∀ k < completed, state.RecvDone edge k

theorem initial_receiverSafe (edge : Edge) : ReceiverSafe edge (initial edge) 0 where
  tail := by simp [initial, RecvFifo.fresh]
  complete := by simp [initial]
  consumed := by simp [State.reported, initial, RecvPc.taken]
  done := by simp

/-- A move that publishes nothing, and reports only work requests that were reported before or
consumed now. -/
theorem ReceiverSafe.frame {edge : Edge} {state next : State} {completed : ℕ}
    (safe : ReceiverSafe edge state completed) (tail : next.recvFifo.tail = state.recvFifo.tail)
    (complete : next.receiver.nextCompleteStep = state.receiver.nextCompleteStep)
    (posted : state.recvWrs <+: next.recvWrs) (forward : state.executed ≤ next.executed)
    (reports : ∀ step ∈ next.reported,
      step ∈ state.reported ∨ step ∈ next.recvWrs.take next.executed) :
    ReceiverSafe edge next completed := by
  have grown : state.recvWrs.take state.executed ⊆ next.recvWrs.take next.executed := by
    obtain ⟨suffix, extended⟩ := posted
    refine List.Subset.trans ?_ (List.take_subset_take_left _ forward)
    rw [← extended, List.take_append]
    exact List.subset_append_left _ _
  exact
    { tail := tail.trans safe.tail
      complete := complete.trans safe.complete
      consumed := fun step member =>
        (reports step member).elim (fun old => grown (safe.consumed step old)) id
      done := fun k passed => grown (safe.done k passed) }

/-- A move of the proxy that publishes nothing, and drops completions or takes the first one up. -/
theorem ReceiverSafe.quiet {edge : Edge} {state next : State} {completed : ℕ}
    (safe : ReceiverSafe edge state completed) (tail : next.recvFifo.tail = state.recvFifo.tail)
    (complete : next.receiver.nextCompleteStep = state.receiver.nextCompleteStep)
    (posted : state.recvWrs <+: next.recvWrs) (executed : next.executed = state.executed)
    (reports : next.reported ⊆ state.reported) : ReceiverSafe edge next completed :=
  safe.frame tail complete posted executed.ge fun _ member => .inl (reports member)

/-- A completion of the batch is processed. -/
theorem ReceiverSafe.drain {edge : Edge} {state : State} {completed left : ℕ} {wc : RecvWc}
    {later : List RecvWc} (safe : ReceiverSafe edge state completed)
    (draining : state.receiver.pc = .drain (left + 1)) (waiting : state.recvCq = wc :: later) :
    ReceiverSafe edge (drainRecv edge { state with recvCq := later } left wc) completed := by
  cases wc with
  | cts step =>
      unfold drainRecv
      dsimp only
      split
      all_goals
        refine safe.quiet rfl rfl (List.prefix_refl _) rfl ?_
        simp [State.reported, State.recvGoto, RecvPc.taken, draining, waiting]
  | imm step immData =>
      unfold drainRecv
      dsimp only
      split_ifs with unexpected oversized
      · refine safe.quiet rfl rfl (List.prefix_refl _) rfl ?_
        simp [State.reported, State.recvGoto, RecvPc.taken, draining, waiting, RecvWc.immStep?]
      · obtain rfl := not_not.mp unexpected
        refine safe.quiet rfl rfl (List.prefix_refl _) rfl ?_
        simp [State.reported, State.recvGoto, RecvPc.taken, draining, waiting, RecvWc.immStep?]
      · obtain rfl := not_not.mp unexpected
        refine safe.quiet rfl rfl (List.prefix_refl _) rfl ?_
        simp [State.reported, State.recvGoto, RecvPc.taken, draining, waiting, RecvWc.immStep?]

/-- Every move of the proxy is safe. -/
theorem ReceiverSafe.recv {edge : Edge} {state next : State} {completed : ℕ}
    (safe : ReceiverSafe edge state completed) (step : recvStep edge state = some next) :
    ∃ later ≥ completed, ReceiverSafe edge next later := by
  unfold recvStep at step
  cases at_pc : state.receiver.pc <;> simp only [at_pc] at step
  case ctsTest | immTest =>
    split_ifs at step
    all_goals
      obtain rfl := Option.some.inj step
      refine ⟨completed, le_rfl, safe.quiet rfl rfl (List.prefix_refl _) rfl ?_⟩
      simp [State.reported, State.recvGoto, RecvPc.taken, at_pc]
  case ctsShadow | ctsPost =>
    obtain rfl := Option.some.inj step
    refine ⟨completed, le_rfl, safe.quiet rfl rfl (List.prefix_refl _) rfl ?_⟩
    simp [State.reported, State.recvGoto, RecvPc.taken, at_pc]
  case immPost =>
    obtain rfl := Option.some.inj step
    refine ⟨completed, le_rfl, safe.quiet rfl rfl (List.prefix_append _ _) rfl ?_⟩
    simp [State.reported, RecvPc.taken, at_pc]
  case drain left =>
    cases left with
    | zero =>
        obtain rfl := Option.some.inj step
        refine ⟨completed, le_rfl, safe.quiet rfl rfl (List.prefix_refl _) rfl ?_⟩
        simp [State.reported, State.recvGoto, RecvPc.taken, at_pc]
    | succ left =>
        cases waiting : state.recvCq with
        | nil => simp [waiting] at step
        | cons wc later =>
            simp only [waiting, Option.some.injEq] at step
            exact ⟨completed, le_rfl, step ▸ safe.drain at_pc waiting⟩
  case storeTail left =>
    obtain rfl := Option.some.inj step
    have published : edge.step completed ∈ state.recvWrs.take state.executed := by
      rw [← safe.complete]
      exact safe.consumed _ (by simp [State.reported, at_pc, RecvPc.taken])
    refine ⟨completed + 1, Nat.le_succ _, ?_, ?_, ?_, ?_⟩
    · dsimp only
      rw [safe.complete, edge.step_succ]
    · dsimp only
      rw [safe.complete, edge.step_succ]
    · intro step member
      refine safe.consumed step ?_
      simp only [State.reported, RecvPc.taken, List.nil_append] at member
      exact List.mem_append_right _ member
    · intro k passed
      rcases Nat.lt_succ_iff_lt_or_eq.mp passed with earlier | rfl
      · exact safe.done k earlier
      · exact published
  case poll | failed => cases step

/-- A completion queue that gained one completion. -/
theorem mem_immStep?_of_insertIdx {recvCq : List RecvWc} {position step : ℕ} {wc : RecvWc}
    (member : step ∈ (recvCq.insertIdx position wc).filterMap RecvWc.immStep?) :
    wc.immStep? = some step ∨ step ∈ recvCq.filterMap RecvWc.immStep? := by
  obtain ⟨reported, inside, steps⟩ := List.mem_filterMap.mp member
  rcases List.eq_or_mem_of_mem_insertIdx inside with rfl | old
  · exact .inl steps
  · exact .inr (List.mem_filterMap.mpr ⟨reported, old, steps⟩)

/-- A consumed work request may be reported. -/
theorem ReceiverSafe.consume {edge : Edge} {state : State} {completed step : ℕ}
    {recvCq : List RecvWc} (safe : ReceiverSafe edge state completed)
    (found : state.recvWrs[state.executed]? = some step)
    (reports : ∀ other ∈ recvCq.filterMap RecvWc.immStep?,
      other = step ∨ other ∈ state.recvCq.filterMap RecvWc.immStep?) :
    ReceiverSafe edge { state with executed := state.executed + 1, recvCq := recvCq }
      completed := by
  refine safe.frame rfl rfl (List.prefix_refl _) (Nat.le_succ _) ?_
  intro other member
  rcases List.mem_append.mp member with taken | waiting
  · exact .inl (List.mem_append_left _ taken)
  · rcases reports other waiting with rfl | old
    · right
      rw [List.take_add_one, found]
      exact List.mem_append_right _ (List.mem_singleton_self _)
    · exact .inl (List.mem_append_right _ old)

/-- Every move of the proxy and of its surroundings is safe, and `recv_tail` never goes back. -/
theorem ReceiverSafe.step {edge : Edge} {state next : State} {completed : ℕ}
    {label : ReceiverLabel ⊕ (Option ℕ × ℕ)} (safe : ReceiverSafe edge state completed)
    (taken : looseReceiverStep edge state label = some next) :
    ∃ later ≥ completed, ReceiverSafe edge next later := by
  rcases label with (_ | count | immData | _ | head) | ⟨_ | immData, position⟩
  · exact safe.recv taken
  · simp only [looseReceiverStep, receiverStep, pollRecv, Option.ite_none_right_eq_some,
      Option.some.injEq] at taken
    obtain ⟨ready, rfl⟩ := taken
    refine ⟨completed, le_rfl, safe.quiet rfl rfl (List.prefix_refl _) rfl ?_⟩
    simp [State.reported, State.recvGoto, RecvPc.taken, ready.1]
  · obtain ⟨step, found, rfl⟩ := Option.map_eq_some_iff.mp taken
    refine ⟨completed, le_rfl, safe.consume found ?_⟩
    intro other member
    simpa [RecvWc.immStep?, or_comm, eq_comm] using member
  · obtain ⟨wr, found, rfl⟩ := Option.map_eq_some_iff.mp taken
    refine ⟨completed, le_rfl, safe.quiet rfl rfl (List.prefix_refl _) rfl ?_⟩
    cases wr.signaled <;> simp [State.reported, RecvWc.immStep?]
  · obtain ⟨fifo, released, rfl⟩ := Option.map_eq_some_iff.mp taken
    exact ⟨completed, le_rfl, safe.quiet (RecvFifo.advance_counters released).1 rfl
      (List.prefix_refl _) rfl (List.Subset.refl _)⟩
  · obtain ⟨wr, found, rfl⟩ := Option.map_eq_some_iff.mp taken
    refine ⟨completed, le_rfl, safe.quiet rfl rfl (List.prefix_refl _) rfl ?_⟩
    intro step member
    rcases List.mem_append.mp member with first | waiting
    · exact List.mem_append_left _ first
    · refine List.mem_append_right _ ?_
      dsimp only at waiting
      split_ifs at waiting
      · exact (mem_immStep?_of_insertIdx waiting).resolve_left (by simp [RecvWc.immStep?])
      · exact waiting
  · obtain ⟨step, found, rfl⟩ := Option.map_eq_some_iff.mp taken
    refine ⟨completed, le_rfl, safe.consume found ?_⟩
    intro other member
    exact (mem_immStep?_of_insertIdx member).imp_left fun same => (Option.some.inj same).symm

theorem receiverSafe_of_reachable {edge : Edge} {state : State}
    (reach : StepSystem.Reachable (looseReceiverStep edge) (initial edge) state) :
    ∃ completed, ReceiverSafe edge state completed := by
  refine reach.invariant (fun state => ∃ completed, ReceiverSafe edge state completed) ?_
    ⟨0, initial_receiverSafe edge⟩
  rintro state label next ⟨completed, safe⟩ taken
  obtain ⟨later, -, kept⟩ := safe.step taken
  exact ⟨later, kept⟩

/-- The surroundings touch neither `recv_tail` nor a size. -/
theorem looseReceiverStep_kept {edge : Edge} {state next : State}
    {label : ReceiverLabel ⊕ (Option ℕ × ℕ)} (other : (recvWorker edge).own label = false)
    (taken : looseReceiverStep edge state label = some next) :
    next.recvFifo.tail = state.recvFifo.tail ∧ next.recvFifo.sizes = state.recvFifo.sizes := by
  rcases label with (_ | count | immData | _ | head) | ⟨_ | immData, position⟩
  · cases other
  · cases other
  · obtain ⟨step, -, rfl⟩ := Option.map_eq_some_iff.mp taken
    exact ⟨rfl, rfl⟩
  · obtain ⟨wr, -, rfl⟩ := Option.map_eq_some_iff.mp taken
    exact ⟨rfl, rfl⟩
  · obtain ⟨fifo, released, rfl⟩ := Option.map_eq_some_iff.mp taken
    exact ⟨(RecvFifo.advance_counters released).1, RecvFifo.sizes_of_advance released⟩
  · obtain ⟨wr, -, rfl⟩ := Option.map_eq_some_iff.mp taken
    exact ⟨rfl, rfl⟩
  · obtain ⟨step, -, rfl⟩ := Option.map_eq_some_iff.mp taken
    exact ⟨rfl, rfl⟩

/-- The WRITE+CTS receive proxy publishes no failed slice. -/
theorem recvWorker_failSafe (edge : Edge) :
    FailStop.FailSafe (recvWorker edge) (initial edge) .preparing
      (fun state => state.recvFifo.tail) (fun k => edge.base + k * edge.stepIncrement)
      (fun state k => state.RecvDone edge k) (fun state => state.recvFifo.sizes)
      (fun _ => True) := by
  refine FailStop.failSafe_of_core ?_ ?_ ?_ ?_
  · intro state reach
    obtain ⟨completed, safe⟩ := receiverSafe_of_reachable reach
    exact ⟨completed, by rw [safe.tail, Edge.step, Nat.mul_comm], safe.done⟩
  · intro state label next reach taken
    obtain ⟨completed, safe⟩ := receiverSafe_of_reachable reach
    obtain ⟨later, forward, kept⟩ := safe.step taken
    rw [safe.tail, kept.tail, edge.step_le_step]
    exact forward
  · exact fun state label next other taken => (looseReceiverStep_kept other taken).1
  · exact fun state label next other _ taken => (looseReceiverStep_kept other taken).2

end WriteCts

end NanoNccl.Rdma
