import NanoNccl.Lib.FailStop
import NanoNccl.Socket.Delivery

/-!
# Failures of the socket proxies

Each proxy alone with a stream that may fail after any number of bytes. The memory of the FIFO may
hold anything, and the stream may bring anything. A slice counts as sent once `sendmsg` has accepted
its whole frame, and as received once a whole frame that fits its slot was read.
-/

namespace NanoNccl.Socket

open ByteOrder StepSystem

/-! ### Sending -/

/-- The send proxy with the bytes `sendmsg` has accepted. -/
structure TracedSendSide where
  /-- The send proxy. -/
  side : SendSide
  /-- Payload sizes and accepted bytes of the frames the proxy is done with, oldest first. -/
  frames : List (ℕ × List UInt8)
  /-- Bytes accepted of the frame in progress. -/
  accepted : List UInt8

/-- The send proxy is constructed on a fresh FIFO. -/
def initialSend (link : Link) : TracedSendSide := ⟨(initial link).sender, [], []⟩

/-- Keep track of a move of the proxy itself: `send_iov_all` returns before `send_head` is
stored. -/
def TracedSendSide.track (state : TracedSendSide) (next : SendSide) : TracedSendSide :=
  match state.side.proxy.pc, next.proxy.pc with
  | .send payloadBytes _, .storeHead =>
      { side := next, frames := state.frames ++ [(payloadBytes, state.accepted)], accepted := [] }
  | _, _ => { state with side := next }

/-- One move of the send proxy or of its surroundings. -/
inductive SendEvent
  /-- The send proxy moves. -/
  | send
  /-- The send proxy writes so many bytes to the stream. -/
  | sendmsg (count : ℕ)
  /-- The memory of the FIFO changes. -/
  | storeData (data : ℕ → UInt8)
  /-- Somebody stores a size. -/
  | storeSize (slot payloadBytes : ℕ)
  /-- Somebody stores `send_tail`. -/
  | storeTail (tail : ℕ)

/-- A move with which nobody stores a size of the send FIFO. -/
def SendEvent.Quiet : SendEvent → Prop
  | .storeSize _ _ => False
  | .send | .sendmsg _ | .storeData _ | .storeTail _ => True

/-- The transition function of a send proxy among unreliable surroundings. -/
def looseSendStep (link : Link) (state : TracedSendSide) : SendEvent → Option TracedSendSide
  | .send => (sendStep link state.side).map state.track
  | .sendmsg count =>
      (sendmsg state.side count).map fun result =>
        { state with side := result.1, accepted := state.accepted ++ result.2 }
  | .storeData data =>
      some { state with side.fifo := { state.side.fifo with data := data } }
  | .storeSize slot payloadBytes =>
      some { state with side.fifo := { state.side.fifo with
        sizes := Function.update state.side.fifo.sizes slot payloadBytes } }
  | .storeTail tail =>
      some { state with side.fifo := { state.side.fifo with tail := tail } }

/-- The send proxy as a worker, whose calls are the turns of its loop. -/
def sendWorker (link : Link) : FailStop.Worker TracedSendSide SendEvent where
  step := looseSendStep link
  own
    | .send | .sendmsg _ => true
    | .storeData _ | .storeSize _ _ | .storeTail _ => false
  throws state := decide (state.side.proxy.pc = .payloadExceedsCapacity)
  finishes _ next := decide (next.side.proxy.pc = .top)
  examines _ := false

/-- `sendmsg` accepted the whole frame of the `k`-th slice. -/
def TracedSendSide.SendDone (state : TracedSendSide) (k : ℕ) : Prop :=
  ∃ payloadBytes bytes, state.frames[k]? = some (payloadBytes, bytes) ∧
    bytes.length = 4 + payloadBytes

/-- Number of bytes a gather list stands for. -/
def gatherLength (iovs : List Iovec) : ℕ := (iovs.map Iovec.len).sum

theorem length_gather (header : List UInt8) (data : ℕ → UInt8) (iovs : List Iovec) :
    (gather header data iovs).length = gatherLength iovs := by
  induction iovs with
  | nil => rfl
  | cons iov rest ih =>
      simp only [gather] at ih
      simp [gather, gatherLength, ih]

/-- What the frame in progress owes. -/
def SendPcFacts (state : TracedSendSide) (completed : ℕ) : SendPc → Prop
  | .top | .size | .payloadExceedsCapacity =>
      state.frames.length = completed ∧ state.accepted = []
  | .send payloadBytes iovs =>
      state.frames.length = completed ∧
        state.accepted.length + gatherLength iovs = 4 + payloadBytes
  | .storeHead => state.frames.length = completed + 1 ∧ state.accepted = []

/-- Every slice `send_head` has passed was sent. -/
structure SendSafe (link : Link) (state : TracedSendSide) (completed : ℕ) : Prop where
  head : state.side.fifo.head = link.step completed
  step : state.side.proxy.step = link.step completed
  whole : ∀ frame ∈ state.frames, frame.2.length = 4 + frame.1
  pc : SendPcFacts state completed state.side.proxy.pc

theorem initialSend_safe (link : Link) : SendSafe link (initialSend link) 0 where
  head := by simp [initialSend, initial, SendFifo.fresh]
  step := by simp [initialSend, initial]
  whole := by simp [initialSend]
  pc := ⟨rfl, rfl⟩

theorem SendSafe.send {link : Link} {state : TracedSendSide} {next : SendSide} {completed : ℕ}
    (safe : SendSafe link state completed) (step : sendStep link state.side = some next) :
    ∃ later ≥ completed, SendSafe link (state.track next) later := by
  have facts := safe.pc
  unfold sendStep at step
  cases at_pc : state.side.proxy.pc <;> rw [at_pc] at facts <;> simp only [at_pc] at step
  case top =>
    split_ifs at step
    · obtain rfl := Option.some.inj step
      simp only [TracedSendSide.track, at_pc]
      exact ⟨completed, le_rfl, safe⟩
    · obtain rfl := Option.some.inj step
      simp only [TracedSendSide.track, at_pc]
      exact ⟨completed, le_rfl, safe.head, safe.step, safe.whole, facts⟩
  case size =>
    split_ifs at step
    · obtain rfl := Option.some.inj step
      simp only [TracedSendSide.track, at_pc]
      exact ⟨completed, le_rfl, safe.head, safe.step, safe.whole, facts⟩
    · obtain rfl := Option.some.inj step
      simp only [TracedSendSide.track, at_pc]
      refine ⟨completed, le_rfl, safe.head, safe.step, safe.whole, facts.1, ?_⟩
      rw [facts.2, ← length_gather (sliceHeader (state.side.fifo.sizes
        (link.slot state.side.proxy.step))) state.side.fifo.data, gather_sendSlice]
      simp
  case send payloadBytes iovs =>
    cases iovs with
    | nil =>
        obtain rfl := Option.some.inj step
        simp only [TracedSendSide.track, at_pc, SendSide.goto]
        refine ⟨completed, le_rfl, safe.head, safe.step, ?_, ?_, rfl⟩
        · intro frame member
          rcases List.mem_append.mp member with old | new
          · exact safe.whole frame old
          · obtain rfl := List.mem_singleton.mp new
            exact facts.2
        · rw [List.length_append, facts.1, List.length_singleton]
    | cons iov rest => cases step
  case storeHead =>
    obtain rfl := Option.some.inj step
    simp only [TracedSendSide.track, at_pc]
    refine ⟨completed + 1, Nat.le_succ _, ?_, ?_, safe.whole, facts⟩
    · dsimp only
      rw [safe.step, link.step_succ]
    · dsimp only
      rw [safe.step, link.step_succ]
  case payloadExceedsCapacity => cases step

theorem SendSafe.sendmsg {link : Link} {state : TracedSendSide} {completed count : ℕ}
    {result : SendSide × List UInt8} (safe : SendSafe link state completed)
    (step : Socket.sendmsg state.side count = some result) :
    SendSafe link { state with side := result.1, accepted := state.accepted ++ result.2 }
      completed := by
  have facts := safe.pc
  unfold Socket.sendmsg at step
  cases at_pc : state.side.proxy.pc <;> rw [at_pc] at facts <;> simp only [at_pc] at step
  case send payloadBytes iovs =>
    split_ifs at step with some_bytes
    obtain rfl := Option.some.inj step
    refine ⟨safe.head, safe.step, safe.whole, facts.1, ?_⟩
    rw [length_gather] at some_bytes
    rw [← length_gather (sliceHeader payloadBytes) state.side.fifo.data, gather_advanceIov]
    simp only [List.length_append, List.length_take, List.length_drop, length_gather]
    have owed := facts.2
    omega
  case top | size | storeHead | payloadExceedsCapacity => cases step

/-- Every move of the proxy and of its surroundings is safe, and `send_head` never goes back. -/
theorem SendSafe.step_safe {link : Link} {state next : TracedSendSide} {completed : ℕ}
    {label : SendEvent} (safe : SendSafe link state completed)
    (taken : looseSendStep link state label = some next) :
    ∃ later ≥ completed, SendSafe link next later := by
  cases label with
  | send =>
      obtain ⟨side, moved, rfl⟩ := Option.map_eq_some_iff.mp taken
      exact safe.send moved
  | sendmsg count =>
      obtain ⟨result, written, rfl⟩ := Option.map_eq_some_iff.mp taken
      exact ⟨completed, le_rfl, safe.sendmsg written⟩
  | storeData data | storeSize slot payloadBytes | storeTail tail =>
      obtain rfl := Option.some.inj taken
      refine ⟨completed, le_rfl, safe.head, safe.step, safe.whole, ?_⟩
      have facts := safe.pc
      dsimp only
      cases at_pc : state.side.proxy.pc <;> rw [at_pc] at facts <;> exact facts

theorem sendSafe_of_reachable {link : Link} {state : TracedSendSide}
    (reach : StepSystem.Reachable (looseSendStep link) (initialSend link) state) :
    ∃ completed, SendSafe link state completed := by
  refine reach.invariant (fun state => ∃ completed, SendSafe link state completed) ?_
    ⟨0, initialSend_safe link⟩
  rintro state label next ⟨completed, safe⟩ taken
  obtain ⟨later, -, kept⟩ := safe.step_safe taken
  exact ⟨later, kept⟩

theorem SendSafe.done {link : Link} {state : TracedSendSide} {completed k : ℕ}
    (safe : SendSafe link state completed) (passed : k < completed) : state.SendDone k := by
  have enough : completed ≤ state.frames.length := by
    have facts := safe.pc
    cases at_pc : state.side.proxy.pc <;> rw [at_pc] at facts
    case storeHead => exact facts.1 ▸ Nat.le_succ _
    all_goals exact facts.1.ge
  have inside : k < state.frames.length := passed.trans_le enough
  exact ⟨_, _, List.getElem?_eq_getElem inside, safe.whole _ (List.getElem_mem inside)⟩

/-- The surroundings touch neither `send_head` nor, with quiet moves, a size. -/
theorem looseSendStep_kept {link : Link} {state next : TracedSendSide} {label : SendEvent}
    (other : (sendWorker link).own label = false)
    (taken : looseSendStep link state label = some next) :
    next.side.fifo.head = state.side.fifo.head ∧
      (label.Quiet → next.side.fifo.sizes = state.side.fifo.sizes) := by
  cases label with
  | send | sendmsg count => cases other
  | storeData data | storeTail tail => exact Option.some.inj taken ▸ ⟨rfl, fun _ => rfl⟩
  | storeSize slot payloadBytes => exact Option.some.inj taken ▸ ⟨rfl, False.elim⟩

/-- The socket send proxy publishes no failed slice. -/
theorem sendWorker_failSafe (link : Link) :
    FailStop.FailSafe (sendWorker link) (initialSend link) .idle
      (fun state => state.side.fifo.head) (fun k => link.base + k * link.stepIncrement)
      (fun state k => state.SendDone k) (fun state => state.side.fifo.sizes) SendEvent.Quiet := by
  refine FailStop.failSafe_of_core ?_ ?_ ?_ ?_
  · intro state reach
    obtain ⟨completed, safe⟩ := sendSafe_of_reachable reach
    exact ⟨completed, by rw [safe.head, Link.step, Nat.mul_comm], fun k => safe.done⟩
  · intro state label next reach taken
    obtain ⟨completed, safe⟩ := sendSafe_of_reachable reach
    obtain ⟨later, forward, kept⟩ := safe.step_safe taken
    rw [safe.head, kept.head, link.step_le_step]
    exact forward
  · exact fun state label next other taken => (looseSendStep_kept other taken).1
  · exact fun state label next other quiet taken => (looseSendStep_kept other taken).2 quiet

/-! ### Receiving -/

/-- The receive proxy with the bytes `recv` has returned. -/
structure TracedRecvSide where
  /-- The receive proxy. -/
  side : RecvSide
  /-- Frames the proxy has read, oldest first. -/
  frames : List (List UInt8)
  /-- Bytes read of the frame in progress. -/
  collected : List UInt8

/-- The receive proxy is constructed on a fresh FIFO. -/
def initialRecv (link : Link) : TracedRecvSide := ⟨(initial link).receiver, [], []⟩

/-- Keep track of a move of the proxy itself: `recv_slice` returns before the size is stored. -/
def TracedRecvSide.track (state : TracedRecvSide) (next : RecvSide) : TracedRecvSide :=
  match state.side.proxy.pc, next.proxy.pc with
  | .payload _ _, .storeSize _ =>
      { side := next, frames := state.frames ++ [state.collected], collected := [] }
  | _, _ => { state with side := next }

/-- One move of the receive proxy or of its surroundings. -/
inductive RecvEvent
  /-- The receive proxy moves. -/
  | recv
  /-- `recv` returns these bytes. -/
  | recvBytes (bytes : List UInt8)
  /-- Somebody stores `recv_head`. -/
  | storeHead (head : ℕ)

/-- The transition function of a receive proxy among unreliable surroundings. -/
def looseRecvStep (link : Link) (state : TracedRecvSide) : RecvEvent → Option TracedRecvSide
  | .recv => (recvStep link state.side).map state.track
  | .recvBytes bytes =>
      (recvBytes link state.side bytes).map fun side =>
        { state with side := side, collected := state.collected ++ bytes }
  | .storeHead head =>
      some { state with side.fifo := { state.side.fifo with head := head } }

/-- The receive proxy as a worker, whose calls are the turns of its loop. -/
def recvWorker (link : Link) : FailStop.Worker TracedRecvSide RecvEvent where
  step := looseRecvStep link
  own
    | .recv | .recvBytes _ => true
    | .storeHead _ => false
  throws state := decide (state.side.proxy.pc = .payloadExceedsCapacity)
  finishes _ next := decide (next.side.proxy.pc = .top)
  examines _ := false

/-- A frame that fits a slot, with as many bytes as its header announces. -/
def WholeFrame (link : Link) (bytes : List UInt8) : Prop :=
  bytes.length = 4 + ofBigEndian (bytes.take 4) ∧ ofBigEndian (bytes.take 4) ≤ link.slotBytes

/-- The whole frame of the `k`-th slice was read. -/
def TracedRecvSide.RecvDone (link : Link) (state : TracedRecvSide) (k : ℕ) : Prop :=
  ∃ bytes, state.frames[k]? = some bytes ∧ WholeFrame link bytes

/-- What was read of the frame in progress. -/
def RecvPcFacts (link : Link) (state : TracedRecvSide) (completed : ℕ) : RecvPc → Prop
  | .top => state.frames.length = completed ∧ state.collected = []
  | .header received =>
      state.frames.length = completed ∧ state.collected = received ∧ received.length ≤ 4
  | .payload payloadBytes cursor =>
      state.frames.length = completed ∧ state.collected.length = 4 + cursor ∧
        ofBigEndian (state.collected.take 4) = payloadBytes ∧ payloadBytes ≤ link.slotBytes ∧
        cursor ≤ payloadBytes
  | .storeSize _ | .storeTail =>
      state.frames.length = completed + 1 ∧ state.collected = []
  | .payloadExceedsCapacity => state.frames.length = completed

/-- Every slice `recv_tail` has passed was received. -/
structure RecvSafe (link : Link) (state : TracedRecvSide) (completed : ℕ) : Prop where
  tail : state.side.fifo.tail = link.step completed
  step : state.side.proxy.step = link.step completed
  whole : ∀ frame ∈ state.frames, WholeFrame link frame
  pc : RecvPcFacts link state completed state.side.proxy.pc

theorem initialRecv_safe (link : Link) : RecvSafe link (initialRecv link) 0 where
  tail := by simp [initialRecv, initial, RecvFifo.fresh]
  step := by simp [initialRecv, initial]
  whole := by simp [initialRecv]
  pc := ⟨rfl, rfl⟩

theorem RecvSafe.recv {link : Link} {state : TracedRecvSide} {next : RecvSide} {completed : ℕ}
    (safe : RecvSafe link state completed) (step : recvStep link state.side = some next) :
    ∃ later ≥ completed, RecvSafe link (state.track next) later := by
  have facts := safe.pc
  unfold recvStep at step
  cases at_pc : state.side.proxy.pc <;> rw [at_pc] at facts <;> simp only [at_pc] at step
  case top =>
    split_ifs at step
    · obtain rfl := Option.some.inj step
      simp only [TracedRecvSide.track, at_pc]
      exact ⟨completed, le_rfl, safe⟩
    · obtain rfl := Option.some.inj step
      simp only [TracedRecvSide.track, at_pc]
      exact ⟨completed, le_rfl, safe.tail, safe.step, safe.whole, facts.1, facts.2, Nat.zero_le _⟩
  case header received =>
    obtain ⟨count, collected, short⟩ := facts
    split_ifs at step with unfinished oversized
    · obtain rfl := Option.some.inj step
      simp only [TracedRecvSide.track, at_pc]
      exact ⟨completed, le_rfl, safe.tail, safe.step, safe.whole, count⟩
    · obtain rfl := Option.some.inj step
      simp only [TracedRecvSide.track, at_pc]
      refine ⟨completed, le_rfl, safe.tail, safe.step, safe.whole, count, ?_, ?_, ?_, Nat.zero_le _⟩
      · dsimp only
        rw [collected]
        omega
      · dsimp only
        rw [collected, List.take_of_length_le short]
      · exact not_lt.mp oversized
  case payload payloadBytes cursor =>
    obtain ⟨count, length, announced, fits, inside⟩ := facts
    split_ifs at step with unfinished
    obtain rfl := Option.some.inj step
    simp only [TracedRecvSide.track, at_pc, RecvSide.goto]
    refine ⟨completed, le_rfl, safe.tail, safe.step, ?_, ?_, rfl⟩
    · intro frame member
      rcases List.mem_append.mp member with old | new
      · exact safe.whole frame old
      · obtain rfl := List.mem_singleton.mp new
        refine ⟨?_, announced ▸ fits⟩
        rw [length, announced]
        omega
    · rw [List.length_append, count, List.length_singleton]
  case storeSize payloadBytes =>
    obtain rfl := Option.some.inj step
    simp only [TracedRecvSide.track, at_pc]
    exact ⟨completed, le_rfl, safe.tail, safe.step, safe.whole, facts⟩
  case storeTail =>
    obtain rfl := Option.some.inj step
    simp only [TracedRecvSide.track, at_pc]
    refine ⟨completed + 1, Nat.le_succ _, ?_, ?_, safe.whole, facts⟩
    · dsimp only
      rw [safe.step, link.step_succ]
    · dsimp only
      rw [safe.step, link.step_succ]
  case payloadExceedsCapacity => cases step

theorem RecvSafe.recvBytes {link : Link} {state : TracedRecvSide} {side : RecvSide}
    {completed : ℕ} {bytes : List UInt8} (safe : RecvSafe link state completed)
    (step : Socket.recvBytes link state.side bytes = some side) :
    RecvSafe link { state with side := side, collected := state.collected ++ bytes }
      completed := by
  have facts := safe.pc
  unfold Socket.recvBytes at step
  cases at_pc : state.side.proxy.pc <;> rw [at_pc] at facts <;> simp only [at_pc] at step
  case header received =>
    split_ifs at step with some_bytes
    obtain rfl := Option.some.inj step
    obtain ⟨count, rfl, -⟩ := facts
    refine ⟨safe.tail, safe.step, safe.whole, count, rfl, ?_⟩
    simpa using some_bytes.2
  case payload payloadBytes cursor =>
    split_ifs at step with some_bytes
    obtain rfl := Option.some.inj step
    obtain ⟨count, length, announced, fits, -⟩ := facts
    refine ⟨safe.tail, safe.step, safe.whole, count, ?_, ?_, fits, some_bytes.2⟩
    · simp only [List.length_append, length]
      omega
    · dsimp only
      rw [List.take_append_of_le_length (by omega)]
      exact announced
  case top | storeSize | storeTail | payloadExceedsCapacity => cases step

/-- Every move of the proxy and of its surroundings is safe, and `recv_tail` never goes back. -/
theorem RecvSafe.step_safe {link : Link} {state next : TracedRecvSide} {completed : ℕ}
    {label : RecvEvent} (safe : RecvSafe link state completed)
    (taken : looseRecvStep link state label = some next) :
    ∃ later ≥ completed, RecvSafe link next later := by
  cases label with
  | recv =>
      obtain ⟨side, moved, rfl⟩ := Option.map_eq_some_iff.mp taken
      exact safe.recv moved
  | recvBytes bytes =>
      obtain ⟨side, read, rfl⟩ := Option.map_eq_some_iff.mp taken
      exact ⟨completed, le_rfl, safe.recvBytes read⟩
  | storeHead head =>
      obtain rfl := Option.some.inj taken
      refine ⟨completed, le_rfl, safe.tail, safe.step, safe.whole, ?_⟩
      have facts := safe.pc
      dsimp only
      cases at_pc : state.side.proxy.pc <;> rw [at_pc] at facts <;> exact facts

theorem recvSafe_of_reachable {link : Link} {state : TracedRecvSide}
    (reach : StepSystem.Reachable (looseRecvStep link) (initialRecv link) state) :
    ∃ completed, RecvSafe link state completed := by
  refine reach.invariant (fun state => ∃ completed, RecvSafe link state completed) ?_
    ⟨0, initialRecv_safe link⟩
  rintro state label next ⟨completed, safe⟩ taken
  obtain ⟨later, -, kept⟩ := safe.step_safe taken
  exact ⟨later, kept⟩

theorem RecvSafe.done {link : Link} {state : TracedRecvSide} {completed k : ℕ}
    (safe : RecvSafe link state completed) (passed : k < completed) : state.RecvDone link k := by
  have enough : completed ≤ state.frames.length := by
    have facts := safe.pc
    cases at_pc : state.side.proxy.pc <;> rw [at_pc] at facts
    case storeSize | storeTail => exact facts.1 ▸ Nat.le_succ _
    case payloadExceedsCapacity => exact Eq.ge facts
    all_goals exact facts.1.ge
  have inside : k < state.frames.length := passed.trans_le enough
  exact ⟨_, List.getElem?_eq_getElem inside, safe.whole _ (List.getElem_mem inside)⟩

/-- The socket receive proxy publishes no failed slice. -/
theorem recvWorker_failSafe (link : Link) :
    FailStop.FailSafe (recvWorker link) (initialRecv link) .idle
      (fun state => state.side.fifo.tail) (fun k => link.base + k * link.stepIncrement)
      (fun state k => state.RecvDone link k) (fun state => state.side.fifo.sizes)
      (fun _ => True) := by
  have kept : ∀ state label next, (recvWorker link).own label = false →
      looseRecvStep link state label = some next →
      next.side.fifo.tail = state.side.fifo.tail ∧
        next.side.fifo.sizes = state.side.fifo.sizes := by
    intro state label next other taken
    cases label with
    | recv | recvBytes bytes => cases other
    | storeHead head => exact Option.some.inj taken ▸ ⟨rfl, rfl⟩
  refine FailStop.failSafe_of_core ?_ ?_ ?_ ?_
  · intro state reach
    obtain ⟨completed, safe⟩ := recvSafe_of_reachable reach
    exact ⟨completed, by rw [safe.tail, Link.step, Nat.mul_comm], fun k => safe.done⟩
  · intro state label next reach taken
    obtain ⟨completed, safe⟩ := recvSafe_of_reachable reach
    obtain ⟨later, forward, after⟩ := safe.step_safe taken
    rw [safe.tail, after.tail, link.step_le_step]
    exact forward
  · exact fun state label next other taken => (kept state label next other taken).1
  · exact fun state label next other _ taken => (kept state label next other taken).2

end NanoNccl.Socket
