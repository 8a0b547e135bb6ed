import NanoNccl.Lib.Execution
import NanoNccl.Rdma.Books
import NanoNccl.Rdma.SendRecv
import NanoNccl.Rdma.SenderBooks
import NanoNccl.Rdma.WriteCts

/-!
# Receive proxies among arbitrary peers

Each receive proxy alone with its surroundings: a consumer that only moves `recv_head` forward, and
a network that consumes the posted receive work requests in order and reports each of them once,
with any length or immediate data. The SEND/RECV proxy is modelled with both values of
`elide_zero_payload`; when it is set, it skips slices whose slot already carries size 0, and
anybody may write those sizes.
-/

namespace NanoNccl.Rdma

open Ledger StepSystem

/-- A consumer moves `recv_head` forward. -/
def RecvFifo.advance (fifo : RecvFifo) (head : ℕ) : Option RecvFifo :=
  if fifo.head ≤ head then some { fifo with head := head } else none

theorem RecvFifo.advance_counters {fifo next : RecvFifo} {head : ℕ}
    (step : fifo.advance head = some next) : next.tail = fifo.tail ∧ fifo.head ≤ next.head := by
  unfold RecvFifo.advance at step
  split_ifs at step with forward
  obtain rfl := Option.some.inj step
  exact ⟨rfl, forward⟩

/-! ### SEND/RECV -/

namespace SendRecv

/-- Where the proxy stands in the elision tests of its posting loop. -/
inductive ElidePc
  /-- Loads of `try_elide_zero_payload`. -/
  | load
  /-- Store of the size 0. -/
  | storeSize
  /-- Store of `recv_tail` and advance of both steps. -/
  | storeTail
  /-- Second load of the size, which ends the posting loop when it is 0. -/
  | check
  deriving DecidableEq, Repr

/-- The receive proxy with its elision tests. -/
structure ElidingState where
  /-- The edge, whose proxy is about to post while the tests are made. -/
  core : State
  /-- The test in progress. -/
  elide : Option ElidePc

/-- The receive proxy is constructed on a fresh FIFO. -/
def initialEliding (edge : Edge) : ElidingState := ⟨initial edge, none⟩

/-- The end of the posting loop of `prepare` or `progress_send_recv`. -/
def State.endPosting (state : State) : State :=
  if state.receiver.prepared then state.recvGoto .poll
  else { state with receiver := { state.receiver with prepared := true, pc := .test } }

/-- One step of `RdmaRecvProxy::prepare` or `progress_send_recv` other than a poll, for either
value of `elide_zero_payload`. -/
def recvStepEliding (edge : Edge) (elideZeroPayload : Bool) (state : ElidingState) :
    Option ElidingState :=
  let core := state.core
  let proxy := core.receiver
  let slot := edge.slot proxy.nextPostStep
  match state.elide with
  | none =>
      (recvStep edge core).map fun next =>
        { core := next
          elide := if elideZeroPayload ∧ next.receiver.pc = .post then some .load else none }
  | some .load =>
      if proxy.nextPostStep = proxy.nextCompleteStep ∧
          proxy.nextPostStep + edge.stepIncrement ≤ core.recvFifo.head + edge.slotCount ∧
          core.recvFifo.sizes slot = 0 then
        some { state with elide := some .storeSize }
      else some { state with elide := some .check }
  | some .storeSize =>
      some
        { core := { core with recvFifo := core.recvFifo.storeSize slot 0 }
          elide := some .storeTail }
  | some .storeTail =>
      some
        { core :=
            { core with
              recvFifo :=
                { core.recvFifo with tail := proxy.nextCompleteStep + edge.stepIncrement }
              receiver :=
                { proxy with
                  nextPostStep := proxy.nextPostStep + edge.stepIncrement
                  nextCompleteStep := proxy.nextCompleteStep + edge.stepIncrement
                  pc := .test } }
          elide := none }
  | some .check =>
      if core.recvFifo.sizes slot = 0 then some { core := core.endPosting, elide := none }
      else some { state with elide := none }

/-- The network consumes the next receive work request. -/
def arrive (state : State) (byteLen : ℕ) : Option State :=
  state.recvWrs[state.executed]?.map fun wr =>
    { state with
      executed := state.executed + 1
      recvCq := state.recvCq ++ [⟨wr.wrId, byteLen⟩] }

/-- One move of the receive proxy or of its surroundings. -/
inductive ReceiverLabel
  /-- The receive proxy moves. -/
  | recv
  /-- The receive proxy polls. -/
  | poll (count : ℕ)
  /-- A message of this length arrives. -/
  | arrive (byteLen : ℕ)
  /-- A slot size is announced ahead of its slice. -/
  | announce (slot size : ℕ)
  /-- The consumer stores `recv_head`. -/
  | release (head : ℕ)
  deriving DecidableEq, Repr

/-- The transition function of a receive proxy among its surroundings. -/
def receiverStep (edge : Edge) (elideZeroPayload : Bool) (state : ElidingState) :
    ReceiverLabel → Option ElidingState
  | .recv => recvStepEliding edge elideZeroPayload state
  | .poll count =>
      if state.elide = none then (pollRecv state.core count).map fun core => ⟨core, none⟩ else none
  | .arrive byteLen => (arrive state.core byteLen).map fun core => { state with core := core }
  | .announce slot size =>
      some { state with
        core := { state.core with recvFifo := state.core.recvFifo.storeSize slot size } }
  | .release head =>
      (state.core.recvFifo.advance head).map fun fifo =>
        { state with core := { state.core with recvFifo := fifo } }

/-- Slot of the `k`-th slice, the `wr_id` of its receive work request. -/
def slotOf (edge : Edge) (k : ℕ) : ℕ := edge.slot (edge.step k)

/-- A completion taken from the queue whose `recv_tail` is not stored yet. -/
def RecvPc.taken (pc : RecvPc) (expected : ℕ) : List ℕ :=
  match pc with
  | .storeTail _ => [expected]
  | .test | .post | .poll | .drain _ | .unexpectedSlot => []

/-- The books of the receive proxy, with a completion counted until its `recv_tail` is stored. -/
def State.recvView (edge : Edge) (state : State) : QueueView ℕ where
  nextPostStep := state.receiver.nextPostStep
  nextCompleteStep := state.receiver.nextCompleteStep
  inflight := state.receiver.inflight
  requests := state.recvWrs.map fun wr => (wr.wrId, true)
  executed := state.executed
  completions := state.receiver.pc.taken (edge.slot state.receiver.nextCompleteStep) ++
    state.recvCq.map RecvWc.wrId

/-- What holds where the posting loop has seen room and credit. -/
def State.MayPost (edge : Edge) (state : State) : Prop :=
  state.receiver.inflight < edge.maxInflight ∧
    state.receiver.nextPostStep + edge.stepIncrement ≤ state.recvFifo.head + edge.slotCount

def ReceiverPcFacts (edge : Edge) (state : State) : RecvPc → Prop
  | .post => state.MayPost edge
  | .unexpectedSlot => False
  | .test | .poll | .drain _ | .storeTail _ => True

/-- What holds during the elision tests. -/
def ElideFacts (state : State) : Option ElidePc → Prop
  | none => True
  | some .load | some .check => state.receiver.pc = .post
  | some .storeSize | some .storeTail =>
      state.receiver.pc = .post ∧ state.receiver.nextPostStep = state.receiver.nextCompleteStep

/-- The books of the receive proxy are exact. -/
structure ReceiverExact (edge : Edge) (state : State) (completed : ℕ) : Prop where
  books : RecvExact edge (slotOf edge) state.recvFifo (state.recvView edge) completed
  pc : ReceiverPcFacts edge state state.receiver.pc

theorem initial_receiverExact (edge : Edge) : ReceiverExact edge (initial edge) 0 where
  books :=
    { queue :=
        { complete := by simp [State.recvView, initial]
          post := by simp [State.recvView, initial]
          inflight_le := Nat.zero_le _
          queue := balanced_nil (slotOf edge) 0 }
      signaled := by simp [State.recvView, initial]
      tail := by simp [initial, RecvFifo.fresh]
      credit := by simp [State.recvView, initial, RecvFifo.fresh] }
  pc := trivial

/-- A move that only changes the program counter. -/
theorem ReceiverExact.goto {edge : Edge} {state : State} {completed : ℕ} {pc : RecvPc}
    (exact : ReceiverExact edge state completed)
    (before : ∀ expected, state.receiver.pc.taken expected = [])
    (after : ∀ expected, pc.taken expected = []) (facts : ReceiverPcFacts edge state pc) :
    ReceiverExact edge (state.recvGoto pc) completed where
  books := by
    have same : (state.recvGoto pc).recvView edge = state.recvView edge := by
      simp [State.recvView, State.recvGoto, before, after]
    rw [same]
    exact exact.books
  pc := by
    cases pc <;> exact facts

/-- Every move of the receive proxy without elision keeps its books exact. -/
theorem ReceiverExact.recv {edge : Edge} {state next : State} {completed : ℕ}
    (exact : ReceiverExact edge state completed) (step : recvStep edge state = some next) :
    ∃ later ≥ completed, ReceiverExact edge next later := by
  have facts := exact.pc
  have books := exact.books
  unfold recvStep at step
  cases at_pc : state.receiver.pc <;> rw [at_pc] at facts <;> simp only [at_pc] at step
  case test =>
    have nothing : ∀ expected, state.receiver.pc.taken expected = [] := by
      simp [at_pc, RecvPc.taken]
    split_ifs at step with room prepared
    · exact ⟨completed, le_rfl, Option.some.inj step ▸ exact.goto nothing (fun _ => rfl) room⟩
    · exact ⟨completed, le_rfl, Option.some.inj step ▸ exact.goto nothing (fun _ => rfl) trivial⟩
    · obtain rfl := Option.some.inj step
      have moved : ReceiverExact edge (state.recvGoto .test) completed :=
        exact.goto nothing (fun _ => rfl) trivial
      exact ⟨completed, le_rfl, moved.books, trivial⟩
  case post =>
    obtain rfl := Option.some.inj step
    refine ⟨completed, le_rfl, ?_, trivial⟩
    have posted := books.postRequest facts.1 facts.2
    have named : edge.slot state.receiver.nextPostStep =
        slotOf edge (completed + state.receiver.inflight) := by
      rw [slotOf]
      exact congrArg edge.slot books.queue.post
    simpa [State.recvView, at_pc, RecvPc.taken, recvWrOf, named] using posted
  case drain left =>
    have nothing : ∀ expected, state.receiver.pc.taken expected = [] := by
      simp [at_pc, RecvPc.taken]
    cases left with
    | zero =>
        exact ⟨completed, le_rfl, Option.some.inj step ▸ exact.goto nothing (fun _ => rfl) trivial⟩
    | succ left =>
        cases waiting : state.recvCq with
        | nil => simp [waiting] at step
        | cons wc later =>
            have first : (state.recvView edge).completions = wc.wrId :: later.map RecvWc.wrId := by
              simp [State.recvView, nothing, waiting]
            have expected : wc.wrId = edge.slot state.receiver.nextCompleteStep := by
              rw [books.first_eq first, slotOf]
              exact congrArg edge.slot books.queue.complete.symm
            simp only [waiting] at step
            rw [if_neg (not_not.mpr expected)] at step
            obtain rfl := Option.some.inj step
            refine ⟨completed, le_rfl, ?_, trivial⟩
            have same : RecvExact edge (slotOf edge) (state.recvFifo.storeSize wc.wrId wc.byteLen)
                (state.recvView edge) completed := books.frame rfl le_rfl
            simpa [State.recvView, State.recvGoto, RecvPc.taken, at_pc, waiting, expected] using
              same
  case storeTail left =>
    obtain rfl := Option.some.inj step
    refine ⟨completed + 1, Nat.le_succ _, ?_, trivial⟩
    have first : (state.recvView edge).completions =
        edge.slot state.receiver.nextCompleteStep :: state.recvCq.map RecvWc.wrId := by
      simp [State.recvView, at_pc, RecvPc.taken]
    simpa [State.recvView, RecvPc.taken] using books.completeFirst first
  case poll | unexpectedSlot => cases step

/-- Credit seen once stays, and the consumer does not touch the proxy. -/
theorem ReceiverExact.frame {edge : Edge} {state : State} {completed : ℕ} {fifo : RecvFifo}
    (exact : ReceiverExact edge state completed) (same : fifo.tail = state.recvFifo.tail)
    (forward : state.recvFifo.head ≤ fifo.head) :
    ReceiverExact edge { state with recvFifo := fifo } completed where
  books := exact.books.frame same forward
  pc := by
    have facts := exact.pc
    show ReceiverPcFacts edge { state with recvFifo := fifo } state.receiver.pc
    cases at_pc : state.receiver.pc <;> rw [at_pc] at facts
    case post => exact ⟨facts.1, facts.2.trans (Nat.add_le_add_right forward _)⟩
    all_goals exact facts

/-- The network's completions keep the books exact. -/
theorem ReceiverExact.arrive {edge : Edge} {state next : State} {completed byteLen : ℕ}
    (exact : ReceiverExact edge state completed)
    (taken : SendRecv.arrive state byteLen = some next) :
    ReceiverExact edge next completed ∧ next.receiver = state.receiver := by
  obtain ⟨wr, found, rfl⟩ := Option.map_eq_some_iff.mp taken
  have request : (state.recvView edge).requests[(state.recvView edge).executed]? =
      some (wr.wrId, true) := by
    simp [State.recvView, found]
  refine ⟨⟨?_, ?_⟩, rfl⟩
  · simpa [State.recvView] using exact.books.execute request
  · have facts := exact.pc
    show ReceiverPcFacts edge _ state.receiver.pc
    cases at_pc : state.receiver.pc <;> rw [at_pc] at facts <;> exact facts

/-- The end of the posting loop. -/
theorem ReceiverExact.endPosting {edge : Edge} {state : State} {completed : ℕ}
    (exact : ReceiverExact edge state completed) (posting : state.receiver.pc = .post) :
    ReceiverExact edge state.endPosting completed := by
  have nothing : ∀ expected, state.receiver.pc.taken expected = [] := by
    simp [posting, RecvPc.taken]
  unfold State.endPosting
  split_ifs
  · exact exact.goto nothing (fun _ => rfl) trivial
  · have moved : ReceiverExact edge (state.recvGoto .test) completed :=
      exact.goto nothing (fun _ => rfl) trivial
    exact ⟨moved.books, trivial⟩

/-- Every move of the receive proxy, with or without elision, keeps its books exact. -/
theorem ReceiverExact.recvEliding {edge : Edge} {elideZeroPayload : Bool}
    {state next : ElidingState} {completed : ℕ} (exact : ReceiverExact edge state.core completed)
    (tests : ElideFacts state.core state.elide)
    (step : recvStepEliding edge elideZeroPayload state = some next) :
    ∃ later ≥ completed, ReceiverExact edge next.core later ∧ ElideFacts next.core next.elide := by
  unfold recvStepEliding at step
  cases test : state.elide with
  | none =>
      simp only [test] at step
      obtain ⟨core, moved, rfl⟩ := Option.map_eq_some_iff.mp step
      obtain ⟨later, forward, kept⟩ := exact.recv moved
      refine ⟨later, forward, kept, ?_⟩
      dsimp only
      split_ifs with posting
      · exact posting.2
      · trivial
  | some elidePc =>
      have mayPost : state.core.receiver.pc = .post → state.core.MayPost edge := by
        intro posting
        have facts := exact.pc
        rwa [posting] at facts
      rw [test] at tests
      cases elidePc with
      | load =>
          simp only [test] at step
          split_ifs at step with empty
          · obtain rfl := Option.some.inj step
            exact ⟨completed, le_rfl, exact, tests, empty.1⟩
          · obtain rfl := Option.some.inj step
            exact ⟨completed, le_rfl, exact, tests⟩
      | storeSize =>
          simp only [test, Option.some.injEq] at step
          subst step
          exact ⟨completed, le_rfl, exact.frame rfl le_rfl, tests⟩
      | storeTail =>
          simp only [test, Option.some.injEq] at step
          subst step
          refine ⟨completed + 1, Nat.le_succ _, ⟨?_, trivial⟩, trivial⟩
          have elided := exact.books.elide tests.2 (mayPost tests.1).2
          simpa [State.recvView, RecvPc.taken, tests.1] using elided
      | check =>
          simp only [test] at step
          split_ifs at step
          · obtain rfl := Option.some.inj step
            exact ⟨completed, le_rfl, exact.endPosting tests, trivial⟩
          · obtain rfl := Option.some.inj step
            exact ⟨completed, le_rfl, exact, trivial⟩

theorem ElideFacts.frame {state next : State} {elide : Option ElidePc}
    (tests : ElideFacts state elide) (same : next.receiver = state.receiver) :
    ElideFacts next elide := by
  cases elide with
  | none => trivial
  | some elidePc => cases elidePc <;> simpa [ElideFacts, same] using tests

/-- Every move of the receive proxy and of its surroundings keeps the books exact. -/
theorem ReceiverExact.step {edge : Edge} {elideZeroPayload : Bool} {state next : ElidingState}
    {completed : ℕ} {label : ReceiverLabel} (exact : ReceiverExact edge state.core completed)
    (tests : ElideFacts state.core state.elide)
    (taken : receiverStep edge elideZeroPayload state label = some next) :
    ∃ later ≥ completed, ReceiverExact edge next.core later ∧ ElideFacts next.core next.elide := by
  cases label with
  | recv => exact exact.recvEliding tests taken
  | poll count =>
      simp only [receiverStep, Option.ite_none_right_eq_some, Option.map_eq_some_iff, pollRecv,
        Option.some.injEq] at taken
      obtain ⟨-, core, ⟨ready, rfl⟩, rfl⟩ := taken
      refine ⟨completed, le_rfl, exact.goto ?_ (fun _ => rfl) trivial, trivial⟩
      simp [ready.1, RecvPc.taken]
  | arrive byteLen =>
      obtain ⟨core, arrived, rfl⟩ := Option.map_eq_some_iff.mp taken
      obtain ⟨kept, same⟩ := exact.arrive arrived
      exact ⟨completed, le_rfl, kept, tests.frame same⟩
  | announce slot size =>
      obtain rfl := Option.some.inj taken
      exact ⟨completed, le_rfl, exact.frame rfl le_rfl, tests.frame rfl⟩
  | release head =>
      obtain ⟨fifo, released, rfl⟩ := Option.map_eq_some_iff.mp taken
      obtain ⟨tail, forward⟩ := RecvFifo.advance_counters released
      exact ⟨completed, le_rfl, exact.frame tail forward, tests.frame rfl⟩

theorem receiverExact_of_reachable {edge : Edge} {elideZeroPayload : Bool} {state : ElidingState}
    (reach : StepSystem.Reachable (receiverStep edge elideZeroPayload) (initialEliding edge)
      state) :
    ∃ completed, ReceiverExact edge state.core completed := by
  have start : ∃ completed, ReceiverExact edge (initialEliding edge).core completed ∧
      ElideFacts (initialEliding edge).core (initialEliding edge).elide :=
    ⟨0, initial_receiverExact edge, trivial⟩
  have kept := reach.invariant
    (fun state => ∃ completed, ReceiverExact edge state.core completed ∧
      ElideFacts state.core state.elide) ?_ start
  · obtain ⟨completed, exact, -⟩ := kept
    exact ⟨completed, exact⟩
  · rintro state label next ⟨completed, exact, tests⟩ taken
    obtain ⟨later, -, kept⟩ := exact.step tests taken
    exact ⟨later, kept⟩

end SendRecv

/-! ### WRITE+CTS -/

namespace WriteCts

/-- Step of a CTS completion. -/
def RecvWc.cts? : RecvWc → Option ℕ
  | .cts step => some step
  | .imm _ _ => none

/-- Step of a data completion. -/
def RecvWc.immStep? : RecvWc → Option ℕ
  | .cts _ => none
  | .imm step _ => some step

@[simp] theorem RecvWc.filterMap_cts?_imm (step immData : ℕ) (later : List RecvWc) :
    (RecvWc.imm step immData :: later).filterMap RecvWc.cts? = later.filterMap RecvWc.cts? :=
  List.filterMap_cons_none rfl

@[simp] theorem RecvWc.filterMap_immStep?_cts (step : ℕ) (later : List RecvWc) :
    (RecvWc.cts step :: later).filterMap RecvWc.immStep? = later.filterMap RecvWc.immStep? :=
  List.filterMap_cons_none rfl

/-- The network consumes the next receive work request, with this immediate data. -/
def arriveImm (state : State) (immData : ℕ) : Option State :=
  state.recvWrs[state.executed]?.map fun step =>
    { state with
      executed := state.executed + 1
      recvCq := state.recvCq ++ [.imm step immData] }

/-- The network completes the next CTS write; a signaled one is reported. -/
def completeCts (state : State) : Option State :=
  state.ctsWrites[state.ctsAcked]?.map fun wr =>
    { state with
      ctsAcked := state.ctsAcked + 1
      recvCq := if wr.signaled then state.recvCq ++ [.cts wr.wrId] else state.recvCq }

/-- One move of the receive proxy or of its surroundings. -/
inductive ReceiverLabel
  /-- The receive proxy moves. -/
  | recv
  /-- The receive proxy polls. -/
  | poll (count : ℕ)
  /-- A WRITE with this immediate data arrives. -/
  | arrive (immData : ℕ)
  /-- A CTS write completes. -/
  | completeCts
  /-- The consumer stores `recv_head`. -/
  | release (head : ℕ)
  deriving DecidableEq, Repr

/-- The transition function of a receive proxy among its surroundings. -/
def receiverStep (edge : Edge) (state : State) : ReceiverLabel → Option State
  | .recv => recvStep edge state
  | .poll count => pollRecv state count
  | .arrive immData => arriveImm state immData
  | .completeCts => completeCts state
  | .release head =>
      (state.recvFifo.advance head).map fun fifo => { state with recvFifo := fifo }

/-- A completion taken from the queue whose `recv_tail` is not stored yet. -/
def RecvPc.taken (pc : RecvPc) (expected : ℕ) : List ℕ :=
  match pc with
  | .storeTail _ | .failed .immPayloadExceedsCapacity => [expected]
  | .ctsTest | .ctsShadow | .ctsPost | .immTest | .immPost | .poll | .drain _
  | .failed (.ctsCompletion _) | .failed .unexpectedImmStep => []

/-- The books of the data queue, with a completion counted until its `recv_tail` is stored. -/
def State.immView (state : State) : QueueView ℕ where
  nextPostStep := state.receiver.nextPostStep
  nextCompleteStep := state.receiver.nextCompleteStep
  inflight := state.receiver.inflight
  requests := state.recvWrs.map fun step => (step, true)
  executed := state.executed
  completions := state.receiver.pc.taken state.receiver.nextCompleteStep ++
    state.recvCq.filterMap RecvWc.immStep?

/-- The books of the CTS queue. -/
def State.ctsView (state : State) : QueueView ℕ where
  nextPostStep := state.receiver.nextCtsStep
  nextCompleteStep := state.receiver.nextCtsCompleteStep
  inflight := state.receiver.inflightCts
  requests := state.ctsWrites.map fun wr => (wr.wrId, wr.signaled)
  executed := state.ctsAcked
  completions := state.recvCq.filterMap RecvWc.cts?

def ReceiverPcFacts (edge : Edge) (state : State) : RecvPc → Prop
  | .ctsShadow | .ctsPost =>
      state.receiver.inflightCts < edge.maxInflight ∧ state.credit edge state.receiver.nextCtsStep
  | .immPost =>
      state.receiver.inflight < edge.maxInflight ∧ state.credit edge state.receiver.nextPostStep
  | .failed (.ctsCompletion _) | .failed .unexpectedImmStep => False
  | .ctsTest | .immTest | .poll | .drain _ | .storeTail _ | .failed .immPayloadExceedsCapacity =>
      True

/-- The books of both queues of the receive proxy are exact. -/
structure ReceiverExact (edge : Edge) (state : State) (completed ctsCompleted : ℕ) : Prop where
  books : RecvExact edge edge.step state.recvFifo state.immView completed
  cts : state.ctsView.Exact edge edge.step ctsCompleted
  ctsCredit : state.receiver.nextCtsStep ≤ state.recvFifo.head + edge.slotCount
  pc : ReceiverPcFacts edge state state.receiver.pc

theorem initial_receiverExact (edge : Edge) : ReceiverExact edge (initial edge) 0 0 where
  books :=
    { queue :=
        { complete := by simp [State.immView, initial]
          post := by simp [State.immView, initial]
          inflight_le := Nat.zero_le _
          queue := balanced_nil edge.step 0 }
      signaled := by simp [State.immView, initial]
      tail := by simp [initial, RecvFifo.fresh]
      credit := by simp [State.immView, initial, RecvFifo.fresh] }
  cts :=
    { complete := by simp [State.ctsView, initial]
      post := by simp [State.ctsView, initial]
      inflight_le := Nat.zero_le _
      queue := balanced_nil edge.step 0 }
  ctsCredit := by simp [initial, RecvFifo.fresh]
  pc := trivial

/-- A move that only changes the program counter. -/
theorem ReceiverExact.goto {edge : Edge} {state : State} {completed ctsCompleted : ℕ} {pc : RecvPc}
    (exact : ReceiverExact edge state completed ctsCompleted)
    (before : ∀ expected, state.receiver.pc.taken expected = [])
    (after : ∀ expected, pc.taken expected = []) (facts : ReceiverPcFacts edge state pc) :
    ReceiverExact edge (state.recvGoto pc) completed ctsCompleted where
  books := by
    have same : (state.recvGoto pc).immView = state.immView := by
      simp [State.immView, State.recvGoto, before, after]
    rw [same]
    exact exact.books
  cts := exact.cts
  ctsCredit := exact.ctsCredit
  pc := by
    cases pc with
    | failed error => cases error <;> exact facts
    | _ => exact facts

/-- A completion of the batch is processed without complaint. -/
theorem ReceiverExact.drain {edge : Edge} {state : State} {completed ctsCompleted left : ℕ}
    {wc : RecvWc} {later : List RecvWc} (exact : ReceiverExact edge state completed ctsCompleted)
    (draining : state.receiver.pc = .drain (left + 1)) (waiting : state.recvCq = wc :: later) :
    ∃ ctsLater ≥ ctsCompleted,
      ReceiverExact edge (drainRecv edge { state with recvCq := later } left wc) completed
        ctsLater := by
  have books := exact.books
  cases wc with
  | cts step =>
      have first : state.ctsView.completions = step :: later.filterMap RecvWc.cts? := by
        simp [State.ctsView, waiting, RecvWc.cts?]
      obtain ⟨offset, -, accepted, rest⟩ := exact.cts.completeThrough_first first
      simp only [State.ctsView] at accepted
      refine ⟨ctsCompleted + offset + 1, by omega, ?_⟩
      simp only [drainRecv, accepted]
      refine ⟨?_, rest, exact.ctsCredit, trivial⟩
      simpa [State.immView, waiting, draining, RecvPc.taken] using books
  | imm step immData =>
      have first : state.immView.completions = step :: later.filterMap RecvWc.immStep? := by
        simp [State.immView, waiting, draining, RecvPc.taken, RecvWc.immStep?]
      have expected : step = state.receiver.nextCompleteStep := by
        rw [books.first_eq first]
        exact books.queue.complete.symm
      have cts : { state with recvCq := later }.ctsView = state.ctsView := by
        simp [State.ctsView, waiting]
      refine ⟨ctsCompleted, le_rfl, ?_⟩
      simp only [drainRecv]
      rw [if_neg (not_not.mpr expected)]
      split_ifs with oversized
      · refine ⟨?_, cts ▸ exact.cts, exact.ctsCredit, trivial⟩
        simpa [State.immView, State.recvGoto, RecvPc.taken, draining, waiting, expected,
          RecvWc.immStep?] using books
      · refine ⟨?_, cts ▸ exact.cts, exact.ctsCredit, trivial⟩
        have same : RecvExact edge edge.step
            (state.recvFifo.storeSize (edge.slot step) (swapBytes32 immData)) state.immView
            completed := books.frame rfl le_rfl
        simpa [State.immView, State.recvGoto, RecvPc.taken, draining, waiting, expected,
          RecvWc.immStep?] using same

/-- Every move of the receive proxy keeps its books exact. -/
theorem ReceiverExact.recv {edge : Edge} {state next : State} {completed ctsCompleted : ℕ}
    (exact : ReceiverExact edge state completed ctsCompleted)
    (step : recvStep edge state = some next) :
    ∃ later ≥ completed, ∃ ctsLater ≥ ctsCompleted, ReceiverExact edge next later ctsLater := by
  have facts := exact.pc
  have books := exact.books
  unfold recvStep at step
  cases at_pc : state.receiver.pc <;> rw [at_pc] at facts <;> simp only [at_pc] at step
  case ctsTest =>
    have nothing : ∀ expected, state.receiver.pc.taken expected = [] := by
      simp [at_pc, RecvPc.taken]
    split_ifs at step with room prepared
    · obtain rfl := Option.some.inj step
      exact ⟨completed, le_rfl, ctsCompleted, le_rfl, exact.goto nothing (fun _ => rfl) room⟩
    · obtain rfl := Option.some.inj step
      exact ⟨completed, le_rfl, ctsCompleted, le_rfl, exact.goto nothing (fun _ => rfl) trivial⟩
    · obtain rfl := Option.some.inj step
      have moved : ReceiverExact edge (state.recvGoto .ctsTest) completed ctsCompleted :=
        exact.goto nothing (fun _ => rfl) trivial
      exact ⟨completed, le_rfl, ctsCompleted, le_rfl, moved.books, moved.cts, moved.ctsCredit,
        trivial⟩
  case ctsShadow =>
    obtain rfl := Option.some.inj step
    have moved : ReceiverExact edge (state.recvGoto .ctsPost) completed ctsCompleted :=
      exact.goto (by simp [at_pc, RecvPc.taken]) (fun _ => rfl) facts
    exact ⟨completed, le_rfl, ctsCompleted, le_rfl, moved.books, moved.cts, moved.ctsCredit, facts⟩
  case ctsPost =>
    obtain rfl := Option.some.inj step
    refine ⟨completed, le_rfl, ctsCompleted, le_rfl, ?_, ?_, facts.2, trivial⟩
    · simpa [State.immView, at_pc, RecvPc.taken] using books
    · have posted := exact.cts.postRequest facts.1 (signalsCts edge state)
      rw [← exact.cts.post] at posted
      simpa [State.ctsView] using posted
  case immTest =>
    have nothing : ∀ expected, state.receiver.pc.taken expected = [] := by
      simp [at_pc, RecvPc.taken]
    split_ifs at step with room prepared
    · obtain rfl := Option.some.inj step
      exact ⟨completed, le_rfl, ctsCompleted, le_rfl, exact.goto nothing (fun _ => rfl) room⟩
    · obtain rfl := Option.some.inj step
      exact ⟨completed, le_rfl, ctsCompleted, le_rfl, exact.goto nothing (fun _ => rfl) trivial⟩
    · obtain rfl := Option.some.inj step
      exact ⟨completed, le_rfl, ctsCompleted, le_rfl, exact.goto nothing (fun _ => rfl) trivial⟩
  case immPost =>
    obtain rfl := Option.some.inj step
    refine ⟨completed, le_rfl, ctsCompleted, le_rfl, ?_, exact.cts, exact.ctsCredit, trivial⟩
    have posted := books.postRequest facts.1 facts.2
    rw [← books.queue.post] at posted
    simpa [State.immView, at_pc, RecvPc.taken] using posted
  case drain left =>
    have nothing : ∀ expected, state.receiver.pc.taken expected = [] := by
      simp [at_pc, RecvPc.taken]
    cases left with
    | zero =>
        obtain rfl := Option.some.inj step
        exact ⟨completed, le_rfl, ctsCompleted, le_rfl, exact.goto nothing (fun _ => rfl) trivial⟩
    | succ left =>
        cases waiting : state.recvCq with
        | nil => simp [waiting] at step
        | cons wc later =>
            simp only [waiting, Option.some.injEq] at step
            subst step
            exact ⟨completed, le_rfl, exact.drain at_pc waiting⟩
  case storeTail left =>
    obtain rfl := Option.some.inj step
    refine ⟨completed + 1, Nat.le_succ _, ctsCompleted, le_rfl, ?_, exact.cts, exact.ctsCredit,
      trivial⟩
    have first : state.immView.completions =
        state.receiver.nextCompleteStep :: state.recvCq.filterMap RecvWc.immStep? := by
      simp [State.immView, at_pc, RecvPc.taken]
    simpa [State.immView, RecvPc.taken] using books.completeFirst first
  case poll | failed => cases step

/-- Credit seen once stays, and the consumer does not touch the proxy. -/
theorem ReceiverExact.frame {edge : Edge} {state : State} {completed ctsCompleted : ℕ}
    {fifo : RecvFifo} (exact : ReceiverExact edge state completed ctsCompleted)
    (same : fifo.tail = state.recvFifo.tail) (forward : state.recvFifo.head ≤ fifo.head) :
    ReceiverExact edge { state with recvFifo := fifo } completed ctsCompleted where
  books := exact.books.frame same forward
  cts := exact.cts
  ctsCredit := exact.ctsCredit.trans (Nat.add_le_add_right forward _)
  pc := by
    have facts := exact.pc
    show ReceiverPcFacts edge { state with recvFifo := fifo } state.receiver.pc
    cases at_pc : state.receiver.pc <;> rw [at_pc] at facts
    case ctsShadow | ctsPost | immPost =>
      exact ⟨facts.1, facts.2.trans (Nat.add_le_add_right forward _)⟩
    case failed error => cases error <;> exact facts
    all_goals exact facts

/-- The network does not touch the proxy or the FIFO. -/
theorem ReceiverPcFacts.frame {edge : Edge} {state next : State}
    (facts : ReceiverPcFacts edge state state.receiver.pc) (same : next.receiver = state.receiver)
    (fifo : next.recvFifo = state.recvFifo) : ReceiverPcFacts edge next next.receiver.pc := by
  rw [same]
  cases at_pc : state.receiver.pc <;> rw [at_pc] at facts
  case ctsShadow | ctsPost | immPost =>
    simpa [ReceiverPcFacts, State.credit, same, fifo] using facts
  case failed error => cases error <;> exact facts
  all_goals exact facts

/-- Every move of the receive proxy and of its surroundings keeps the books exact. -/
theorem ReceiverExact.step {edge : Edge} {state next : State} {completed ctsCompleted : ℕ}
    {label : ReceiverLabel} (exact : ReceiverExact edge state completed ctsCompleted)
    (taken : receiverStep edge state label = some next) :
    ∃ later ≥ completed, ∃ ctsLater ≥ ctsCompleted, ReceiverExact edge next later ctsLater := by
  cases label with
  | recv => exact exact.recv taken
  | poll count =>
      simp only [receiverStep, pollRecv] at taken
      split_ifs at taken with ready
      obtain rfl := Option.some.inj taken
      refine ⟨completed, le_rfl, ctsCompleted, le_rfl, exact.goto ?_ (fun _ => rfl) trivial⟩
      simp [ready.1, RecvPc.taken]
  | arrive immData =>
      obtain ⟨step, found, rfl⟩ := Option.map_eq_some_iff.mp taken
      have request : state.immView.requests[state.immView.executed]? = some (step, true) := by
        simp [State.immView, found]
      refine ⟨completed, le_rfl, ctsCompleted, le_rfl, ?_, ?_, exact.ctsCredit,
        exact.pc.frame rfl rfl⟩
      · simpa [State.immView, RecvWc.immStep?] using exact.books.execute request
      · simpa [State.ctsView] using exact.cts
  | completeCts =>
      obtain ⟨wr, found, rfl⟩ := Option.map_eq_some_iff.mp taken
      have request : state.ctsView.requests[state.ctsView.executed]? =
          some (wr.wrId, wr.signaled) := by
        simp [State.ctsView, found]
      have executed := exact.cts.execute request
      refine ⟨completed, le_rfl, ctsCompleted, le_rfl, ?_, ?_, exact.ctsCredit,
        exact.pc.frame rfl rfl⟩
      · cases signaled : wr.signaled <;>
          simpa [State.immView, signaled] using exact.books
      · cases signaled : wr.signaled <;>
          simpa [State.ctsView, RecvWc.cts?, signaled] using executed
  | release head =>
      obtain ⟨fifo, released, rfl⟩ := Option.map_eq_some_iff.mp taken
      obtain ⟨tail, forward⟩ := RecvFifo.advance_counters released
      exact ⟨completed, le_rfl, ctsCompleted, le_rfl, exact.frame tail forward⟩

theorem receiverExact_of_reachable {edge : Edge} {state : State}
    (reach : StepSystem.Reachable (receiverStep edge) (initial edge) state) :
    ∃ completed ctsCompleted, ReceiverExact edge state completed ctsCompleted := by
  refine reach.invariant
    (fun state => ∃ completed ctsCompleted, ReceiverExact edge state completed ctsCompleted) ?_
    ⟨0, 0, initial_receiverExact edge⟩
  rintro state label next ⟨completed, ctsCompleted, exact⟩ taken
  obtain ⟨later, -, ctsLater, -, kept⟩ := exact.step taken
  exact ⟨later, ctsLater, kept⟩

end WriteCts

/-! ### All four proxies -/

/-- The numbers of the proxy itself, also while it has posted a WRITE and not counted it. -/
theorem WriteCts.SenderExact.numbers {edge : Edge} {state : WriteCts.State} {completed : ℕ}
    (exact : WriteCts.SenderExact edge state completed) :
    QueueNumbers edge state.sender.nextPostStep state.sender.nextCompleteStep
        state.sender.inflight ∧
      state.sender.nextPostStep ≤ state.sendFifo.tail := by
  obtain ⟨ordered, difference, bounded⟩ := exact.books.queue.numbers
  have below := exact.books.counters.2
  have posted := exact.books.queue.post
  have complete := exact.books.queue.complete
  simp only [WriteCts.State.sendView, Edge.step, Nat.mul_add] at *
  refine ⟨⟨?_, ?_, by omega⟩, by omega⟩
  · omega
  · rw [Nat.mul_comm]
    omega

/-- The bookkeeping of all four `progress` functions is exact, and none of their consistency checks
fails. -/
theorem bookkeeping_exact (edge : Edge) :
    (∀ state, StepSystem.Reachable (SendRecv.senderStep edge) (SendRecv.initial edge) state →
      QueueNumbers edge state.sender.nextPostStep state.sender.nextCompleteStep
        state.sender.inflight ∧
      state.sendFifo.head = state.sender.nextCompleteStep ∧
      state.sender.nextPostStep ≤ state.sendFifo.tail ∧
      ∀ error, state.sender.pc ≠ .failed (.completion error)) ∧
    (∀ state, StepSystem.Reachable (WriteCts.senderStep edge) (WriteCts.initial edge) state →
      QueueNumbers edge state.sender.nextPostStep state.sender.nextCompleteStep
        state.sender.inflight ∧
      state.sendFifo.head = state.sender.nextCompleteStep ∧
      state.sender.nextPostStep ≤ state.sendFifo.tail ∧
      ∀ error, state.sender.pc ≠ .failed (.completion error)) ∧
    (∀ elideZeroPayload state,
      StepSystem.Reachable (SendRecv.receiverStep edge elideZeroPayload)
        (SendRecv.initialEliding edge) state →
      QueueNumbers edge state.core.receiver.nextPostStep state.core.receiver.nextCompleteStep
        state.core.receiver.inflight ∧
      state.core.recvFifo.tail = state.core.receiver.nextCompleteStep ∧
      state.core.receiver.nextPostStep ≤ state.core.recvFifo.head + edge.slotCount ∧
      state.core.receiver.pc ≠ .unexpectedSlot) ∧
    (∀ state, StepSystem.Reachable (WriteCts.receiverStep edge) (WriteCts.initial edge) state →
      QueueNumbers edge state.receiver.nextPostStep state.receiver.nextCompleteStep
        state.receiver.inflight ∧
      QueueNumbers edge state.receiver.nextCtsStep state.receiver.nextCtsCompleteStep
        state.receiver.inflightCts ∧
      state.receiver.nextCtsStep - state.receiver.nextCtsCompleteStep ≤ edge.slotCount ∧
      state.recvFifo.tail = state.receiver.nextCompleteStep ∧
      state.receiver.nextPostStep ≤ state.recvFifo.head + edge.slotCount ∧
      state.receiver.nextCtsStep ≤ state.recvFifo.head + edge.slotCount ∧
      (∀ error, state.receiver.pc ≠ .failed (.ctsCompletion error)) ∧
      state.receiver.pc ≠ .failed .unexpectedImmStep) := by
  refine ⟨?_, ?_, ?_, ?_⟩
  · intro state reach
    obtain ⟨completed, exact⟩ := SendRecv.senderExact_of_reachable reach
    obtain ⟨head, posted⟩ := exact.books.counters
    refine ⟨exact.books.queue.numbers, head, posted, ?_⟩
    intro error failed
    have facts := exact.pc
    rwa [failed] at facts
  · intro state reach
    obtain ⟨completed, exact⟩ := WriteCts.senderExact_of_reachable reach
    refine ⟨exact.numbers.1, exact.books.counters.1, exact.numbers.2, ?_⟩
    intro error failed
    have facts := exact.pc
    rwa [failed] at facts
  · intro elideZeroPayload state reach
    obtain ⟨completed, exact⟩ := SendRecv.receiverExact_of_reachable reach
    refine ⟨exact.books.queue.numbers, ?_, exact.books.credit, ?_⟩
    · exact exact.books.tail.trans exact.books.queue.complete.symm
    · intro failed
      have facts := exact.pc
      rwa [failed] at facts
  · intro state reach
    obtain ⟨completed, ctsCompleted, exact⟩ := WriteCts.receiverExact_of_reachable reach
    have facts := exact.pc
    have cts := exact.cts.numbers
    refine ⟨exact.books.queue.numbers, cts, cts.span_le, ?_, exact.books.credit,
      exact.ctsCredit, ?_, ?_⟩
    · exact exact.books.tail.trans exact.books.queue.complete.symm
    · intro error failed
      rwa [failed] at facts
    · intro failed
      rwa [failed] at facts

/-- A burst of three SENDs, the second one unsignaled. -/
def threeSends : List SendRecv.SenderLabel :=
  List.flatten
    [[.offer [5], .publish, .offer [6], .publish, .offer [7], .publish], List.replicate 13 .send,
      List.replicate 3 .execute, [.poll 2, .send, .send]]

/-- A burst of two WRITEs, the second one unsignaled, stopped by a missing CTS. -/
def twoWrites : List WriteCts.SenderLabel :=
  List.flatten
    [[.offer [5], .publish, .offer [6], .publish, .offer [7], .publish, .cts 0 ⟨64, 0, 8, 0, 1⟩,
      .cts 2 ⟨80, 0, 8, 2, 1⟩], List.replicate 19 .send, [.poll 0]]

/-- The four CTS of `prepare`, acknowledged to the first `progress`. -/
def fourCts : List WriteCts.ReceiverLabel :=
  List.flatten
    [List.replicate 22 .recv, List.replicate 4 .completeCts, [.recv, .recv, .poll 2, .recv, .recv]]

/-- An empty slice is elided, and a slice of five bytes is received behind it. -/
def elideAndReceive : List SendRecv.ReceiverLabel :=
  List.flatten
    [[.announce 2 5], List.replicate 14 .recv, [.arrive 5, .poll 1, .recv, .recv]]

theorem bookkeeping_exact_runs :
    (∃ state, StepSystem.Reachable (SendRecv.senderStep communicatorEdge)
        (SendRecv.initial communicatorEdge) state ∧ state.sends.length = 3 ∧
      state.sendFifo.head = state.sender.nextCompleteStep) ∧
    (∃ state, StepSystem.Reachable (WriteCts.senderStep communicatorEdge)
        (WriteCts.initial communicatorEdge) state ∧ state.sender.inflight = 2 ∧
      state.sender.inflight * 2 = state.sender.nextPostStep - state.sender.nextCompleteStep) ∧
    (∃ state, StepSystem.Reachable (SendRecv.receiverStep communicatorEdge true)
        (SendRecv.initialEliding communicatorEdge) state ∧ state.core.recvFifo.tail = 4 ∧
      state.core.receiver.nextCompleteStep = 4) ∧
    (∃ state, StepSystem.Reachable (WriteCts.receiverStep communicatorEdge)
        (WriteCts.initial communicatorEdge) state ∧ state.ctsWrites.length = 4 ∧
      state.receiver.nextCtsStep ≤ state.recvFifo.head + 8) := by
  obtain ⟨sendRecvSend, writeCtsSend, sendRecvRecv, writeCtsRecv⟩ :=
    bookkeeping_exact communicatorEdge
  refine ⟨?_, ?_, ?_, ?_⟩
  · have run : (exec (SendRecv.senderStep communicatorEdge) (SendRecv.initial communicatorEdge)
        threeSends).map (fun state => state.sends.length) = some 3 := by
      decide +kernel
    obtain ⟨state, execution, posted⟩ := Option.map_eq_some_iff.mp run
    exact ⟨state, ⟨threeSends, execution⟩, posted,
      (sendRecvSend state ⟨threeSends, execution⟩).2.1⟩
  · have run : (exec (WriteCts.senderStep communicatorEdge) (WriteCts.initial communicatorEdge)
        twoWrites).map (fun state => state.sender.inflight) = some 2 := by
      decide +kernel
    obtain ⟨state, execution, inflight⟩ := Option.map_eq_some_iff.mp run
    exact ⟨state, ⟨twoWrites, execution⟩, inflight,
      (writeCtsSend state ⟨twoWrites, execution⟩).1.difference⟩
  · have run : (exec (SendRecv.receiverStep communicatorEdge true)
        (SendRecv.initialEliding communicatorEdge) elideAndReceive).map
          (fun state => state.core.recvFifo.tail) = some 4 := by
      decide +kernel
    obtain ⟨state, execution, tail⟩ := Option.map_eq_some_iff.mp run
    exact ⟨state, ⟨elideAndReceive, execution⟩, tail,
      (sendRecvRecv true state ⟨elideAndReceive, execution⟩).2.1 ▸ tail⟩
  · have run : (exec (WriteCts.receiverStep communicatorEdge) (WriteCts.initial communicatorEdge)
        fourCts).map (fun state => state.ctsWrites.length) = some 4 := by
      decide +kernel
    obtain ⟨state, execution, posted⟩ := Option.map_eq_some_iff.mp run
    exact ⟨state, ⟨fourCts, execution⟩, posted,
      (writeCtsRecv state ⟨fourCts, execution⟩).2.2.2.2.2.1⟩

end NanoNccl.Rdma
