import NanoNccl.Lib.Execution
import NanoNccl.Rdma.Proxy

/-!
# The WRITE+CTS data plane

One edge: the producer, the send proxy, the network, the receive proxy and the consumer, as one
partial step function. A proxy executes one shared-memory access or one verb per step, so the
post of a WRITE and the clearing of its CTS slot are two steps, and a credit test and the post it
admits are two steps. Three groups are one step each: the loads of the target fields of a CTS slot,
the stores to a shadow slot, and the post of a CTS with the load that decides whether it is
signaled. Completions are polled in batches of any size up to `kPollBatch`.

A reliable connection executes the work requests of each side in posting order, each one once and
at any time after its post. Histories of posted work requests with the number executed stand for
the send queues. A `WRITE_WITH_IMM` consumes the oldest posted receive work request and waits
while there is none. A thrown exception stops its proxy.
-/

namespace NanoNccl.Rdma.WriteCts

/-- `RdmaCtsSlot`. -/
structure CtsSlot where
  /-- `raddr`. -/
  raddr : ℕ
  /-- `rkey`. -/
  rkey : ℕ
  /-- `nbytes`. -/
  nbytes : ℕ
  /-- `step_tag`. -/
  stepTag : ℕ
  /-- `ready`. -/
  ready : ℕ
  deriving DecidableEq, Repr

/-- A `WRITE_WITH_IMM` work request. -/
structure WriteWr where
  /-- `wr_id`, the absolute step. -/
  wrId : ℕ
  /-- `IBV_SEND_SIGNALED`. -/
  signaled : Bool
  /-- `sge.addr`. -/
  addr : ℕ
  /-- `sge.length`. -/
  length : ℕ
  /-- `imm_data`. -/
  immData : ℕ
  /-- `remote_addr`. -/
  remoteAddr : ℕ
  /-- `rkey`. -/
  rkey : ℕ
  deriving DecidableEq, Repr

/-- A CTS work request. -/
structure CtsWr where
  /-- Step carried by `wr_id`; the CTS bit is the constructor of its completion. -/
  wrId : ℕ
  /-- `IBV_SEND_SIGNALED`. -/
  signaled : Bool
  /-- Slot of the CTS FIFO written, and of the shadow it is read from. -/
  slot : ℕ
  /-- The slot copied at the post, when it is sent inline. -/
  inlined : Option CtsSlot
  deriving DecidableEq, Repr

/-- A completion in the queue the receive proxy polls. -/
inductive RecvWc
  /-- A CTS write completed, with the step in its `wr_id`. -/
  | cts (step : ℕ)
  /-- A receive work request consumed by a `WRITE_WITH_IMM`. -/
  | imm (step immData : ℕ)
  deriving DecidableEq, Repr

/-- Step and immediate data of a data completion. -/
def RecvWc.imm? : RecvWc → Option (ℕ × ℕ)
  | .cts _ => none
  | .imm step immData => some (step, immData)

/-- Exceptions of the send proxy. -/
inductive SendError
  /-- "rdma proxy send payload exceeds FIFO capacity" -/
  | payloadExceedsCapacity
  /-- "rdma WriteCts slot exceeds CTS FIFO" -/
  | slotExceedsCts
  /-- "rdma WriteCts CTS step_tag mismatch" -/
  | stepTagMismatch
  /-- "rdma WriteCts CTS target invalid for payload" -/
  | targetInvalid
  /-- "rdma WriteCts send completion ..." -/
  | completion (error : CompletionError)
  deriving DecidableEq, Repr

/-- Exceptions of the receive proxy. -/
inductive RecvError
  /-- "rdma WriteCts CTS completion ..." -/
  | ctsCompletion (error : CompletionError)
  /-- "rdma WriteCts IMM completion has unexpected step" -/
  | unexpectedImmStep
  /-- "rdma WriteCts IMM payload exceeds FIFO capacity" -/
  | immPayloadExceedsCapacity
  deriving DecidableEq, Repr

/-- Where the send proxy stands in `progress_write_cts`, with its live locals. -/
inductive SendPc
  /-- Test of the posting loop and load of `send_tail`. -/
  | top
  /-- Load of the payload size. -/
  | size (tail : ℕ)
  /-- Load of `cts->ready`. -/
  | ready (tail payload : ℕ)
  /-- Load of `cts->step_tag`. -/
  | tag (tail payload : ℕ)
  /-- Load of the target fields. -/
  | target (tail payload : ℕ)
  /-- Load of the next size. -/
  | next (tail payload remoteAddr rkey : ℕ)
  /-- `ibv_post_send`. -/
  | post (tail payload remoteAddr rkey : ℕ) (nextZeroNeedsHead : Bool)
  /-- Store of `cts->ready = 0`. -/
  | clear
  /-- `ibv_poll_cq`. -/
  | poll
  /-- Completions of the batch left to process. -/
  | drain (left : ℕ)
  /-- Stopped by an exception. -/
  | failed (error : SendError)
  deriving DecidableEq, Repr

/-- Private state of the send proxy. -/
structure SendProxy where
  /-- `next_post_step_`. -/
  nextPostStep : ℕ
  /-- `next_complete_step_`. -/
  nextCompleteStep : ℕ
  /-- `inflight_`. -/
  inflight : ℕ
  /-- Program counter. -/
  pc : SendPc
  deriving DecidableEq, Repr

/-- Where the receive proxy stands in `prepare` or `progress_write_cts`. -/
inductive RecvPc
  /-- Test of the CTS loop. -/
  | ctsTest
  /-- Stores to the shadow slot. -/
  | ctsShadow
  /-- `ibv_post_send` of the CTS. -/
  | ctsPost
  /-- Test of the loop over receive work requests. -/
  | immTest
  /-- `ibv_post_recv`. -/
  | immPost
  /-- `ibv_poll_cq`. -/
  | poll
  /-- Completions of the batch left to process. -/
  | drain (left : ℕ)
  /-- Store of `recv_tail`, after the size. -/
  | storeTail (left : ℕ)
  /-- Stopped by an exception. -/
  | failed (error : RecvError)
  deriving DecidableEq, Repr

/-- Private state of the receive proxy. -/
structure RecvProxy where
  /-- `prepared_`. -/
  prepared : Bool
  /-- `next_post_step_`. -/
  nextPostStep : ℕ
  /-- `next_complete_step_`. -/
  nextCompleteStep : ℕ
  /-- `next_cts_step_`. -/
  nextCtsStep : ℕ
  /-- `next_cts_complete_step_`. -/
  nextCtsCompleteStep : ℕ
  /-- `inflight_`. -/
  inflight : ℕ
  /-- `inflight_cts_`. -/
  inflightCts : ℕ
  /-- Program counter. -/
  pc : RecvPc
  deriving DecidableEq, Repr

/-- State of the edge. -/
structure State where
  /-- Send FIFO and producer. -/
  sendFifo : SendFifo
  /-- Receive FIFO and consumer. -/
  recvFifo : RecvFifo
  /-- The sender's CTS slots. -/
  cts : ℕ → CtsSlot
  /-- The receiver's shadow slots. -/
  shadow : ℕ → CtsSlot
  /-- Send proxy. -/
  sender : SendProxy
  /-- Receive proxy. -/
  receiver : RecvProxy
  /-- WRITEs posted, oldest first. -/
  writes : List WriteWr
  /-- Number of WRITEs executed. -/
  executed : ℕ
  /-- Send completions not polled, oldest first. -/
  sendCq : List ℕ
  /-- `wr_id` of the receive work requests posted, oldest first. -/
  recvWrs : List ℕ
  /-- CTS writes posted, oldest first. -/
  ctsWrites : List CtsWr
  /-- Number of CTS writes executed. -/
  ctsDelivered : ℕ
  /-- Number of CTS writes acknowledged. -/
  ctsAcked : ℕ
  /-- Completions of the receiver not polled, oldest first. -/
  recvCq : List RecvWc

/-- Both proxies are constructed on fresh FIFOs; the CTS slots are zero. -/
def initial (edge : Edge) : State where
  sendFifo := SendFifo.fresh edge
  recvFifo := RecvFifo.fresh edge
  cts := fun _ => ⟨0, 0, 0, 0, 0⟩
  shadow := fun _ => ⟨0, 0, 0, 0, 0⟩
  sender := ⟨edge.base, edge.base, 0, .top⟩
  receiver := ⟨false, edge.base, edge.base, edge.base, edge.base, 0, 0, .immTest⟩
  writes := []
  executed := 0
  sendCq := []
  recvWrs := []
  ctsWrites := []
  ctsDelivered := 0
  ctsAcked := 0
  recvCq := []

/-- The slot `post_cts` writes for a step. -/
def ctsOf (edge : Edge) (step : ℕ) : CtsSlot where
  raddr := edge.recvAddr (edge.slot step)
  rkey := edge.recvRkey
  nbytes := edge.slotBytes % 2 ^ 32
  stepTag := step
  ready := 1

/-! ### The send proxy -/

/-- Move the send proxy to another program point. -/
def State.sendGoto (state : State) (pc : SendPc) : State :=
  { state with sender := { state.sender with pc := pc } }

/-- One step of `RdmaSendProxy::progress_write_cts` other than a poll. -/
def sendStep (edge : Edge) (state : State) : Option State :=
  let proxy := state.sender
  let slot := edge.slot proxy.nextPostStep
  match proxy.pc with
  | .top =>
      if proxy.inflight < edge.maxInflight ∧ proxy.nextPostStep < state.sendFifo.tail then
        some (state.sendGoto (.size state.sendFifo.tail))
      else some (state.sendGoto .poll)
  | .size tail =>
      let payload := state.sendFifo.sizes slot
      if edge.slotBytes < payload then some (state.sendGoto (.failed .payloadExceedsCapacity))
      else if payload = 0 then
        -- An empty slice is elided at the completion head, without any RDMA operation.
        if proxy.nextPostStep ≠ proxy.nextCompleteStep then some (state.sendGoto .poll)
        else some { state with
          sendFifo := { state.sendFifo with head := proxy.nextPostStep + edge.stepIncrement }
          sender := { proxy with
            nextPostStep := proxy.nextPostStep + edge.stepIncrement
            nextCompleteStep := proxy.nextCompleteStep + edge.stepIncrement
            pc := .top } }
      else if edge.slotCount ≤ slot then some (state.sendGoto (.failed .slotExceedsCts))
      else some (state.sendGoto (.ready tail payload))
  | .ready tail payload =>
      if (state.cts slot).ready = 1 then some (state.sendGoto (.tag tail payload))
      else some (state.sendGoto .poll)
  | .tag tail payload =>
      if (state.cts slot).stepTag = proxy.nextPostStep then
        some (state.sendGoto (.target tail payload))
      else some (state.sendGoto (.failed .stepTagMismatch))
  | .target tail payload =>
      if (state.cts slot).raddr = 0 ∨ (state.cts slot).nbytes < payload then
        some (state.sendGoto (.failed .targetInvalid))
      else some (state.sendGoto (.next tail payload (state.cts slot).raddr (state.cts slot).rkey))
  | .next tail payload remoteAddr rkey =>
      let nextStep := proxy.nextPostStep + edge.stepIncrement
      let nextZeroNeedsHead :=
        decide (nextStep < tail ∧ state.sendFifo.sizes (edge.slot nextStep) = 0)
      some (state.sendGoto (.post tail payload remoteAddr rkey nextZeroNeedsHead))
  | .post tail payload remoteAddr rkey nextZeroNeedsHead =>
      let wr : WriteWr :=
        { wrId := proxy.nextPostStep
          signaled := signalsData edge proxy.inflight tail proxy.nextPostStep nextZeroNeedsHead
          addr := edge.sendAddr slot
          length := payload
          immData := swapBytes32 payload
          remoteAddr := remoteAddr
          rkey := rkey }
      some { state with
        writes := state.writes ++ [wr]
        sender := { proxy with pc := .clear } }
  | .clear =>
      some { state with
        cts := Function.update state.cts slot { state.cts slot with ready := 0 }
        sender := { proxy with
          nextPostStep := proxy.nextPostStep + edge.stepIncrement
          inflight := proxy.inflight + 1
          pc := .top } }
  | .drain 0 => some (state.sendGoto .top)
  | .drain (left + 1) =>
      match state.sendCq with
      | [] => none
      | completedThrough :: later =>
          match completeThrough edge proxy.nextCompleteStep proxy.inflight completedThrough with
          | .error error => some (state.sendGoto (.failed (.completion error)))
          | .ok (nextCompleteStep, inflight) =>
              some { state with
                sendFifo := { state.sendFifo with head := nextCompleteStep }
                sendCq := later
                sender := { proxy with
                  nextCompleteStep := nextCompleteStep
                  inflight := inflight
                  pc := .drain left } }
  | .poll | .failed _ => none

/-- `ibv_poll_cq` of the send proxy returns `count` completions. -/
def pollSend (state : State) (count : ℕ) : Option State :=
  if state.sender.pc = .poll ∧ count ≤ kPollBatch ∧ count ≤ state.sendCq.length then
    some (state.sendGoto (.drain count))
  else none

/-! ### The receive proxy -/

/-- Move the receive proxy to another program point. -/
def State.recvGoto (state : State) (pc : RecvPc) : State :=
  { state with receiver := { state.receiver with pc := pc } }

/-- `recv_head` leaves a free slot for `step`. -/
def State.credit (edge : Edge) (state : State) (step : ℕ) : Prop :=
  step + edge.stepIncrement ≤ state.recvFifo.head + edge.slotCount

instance (edge : Edge) (state : State) (step : ℕ) : Decidable (state.credit edge step) :=
  inferInstanceAs (Decidable (_ ≤ _))

/-- Whether `post_cts` asks for a completion; `recv_head` is loaded once more for it. -/
def signalsCts (edge : Edge) (state : State) : Bool :=
  let proxy := state.receiver
  let moreCredit := decide (proxy.inflightCts + 1 < edge.maxInflight) &&
    decide (proxy.nextCtsStep + 2 * edge.stepIncrement ≤ state.recvFifo.head + edge.slotCount)
  decide (edge.maxInflight ≤ proxy.inflightCts + 1) || !moreCredit ||
    decide (proxy.nextCtsStep / edge.stepIncrement % kSignalEvery = 0)

/-- Process one completion of the batch in `RdmaRecvProxy::progress_write_cts`. -/
def drainRecv (edge : Edge) (state : State) (left : ℕ) : RecvWc → State
  | .cts completedThrough =>
      let proxy := state.receiver
      match completeThrough edge proxy.nextCtsCompleteStep proxy.inflightCts completedThrough with
      | .error error => state.recvGoto (.failed (.ctsCompletion error))
      | .ok (nextCtsCompleteStep, inflightCts) =>
          { state with receiver := { proxy with
              nextCtsCompleteStep := nextCtsCompleteStep
              inflightCts := inflightCts
              pc := .drain left } }
  | .imm completedStep immData =>
      let payload := swapBytes32 immData
      if completedStep ≠ state.receiver.nextCompleteStep then
        state.recvGoto (.failed .unexpectedImmStep)
      else if edge.slotBytes < payload then
        state.recvGoto (.failed .immPayloadExceedsCapacity)
      else
        { state.recvGoto (.storeTail left) with
          recvFifo := state.recvFifo.storeSize (edge.slot completedStep) payload }

/-- One step of `RdmaRecvProxy::prepare` or `progress_write_cts` other than a poll. The two share
their posting loops: `prepare` runs the receive work requests before the CTS, `progress_write_cts`
after them. -/
def recvStep (edge : Edge) (state : State) : Option State :=
  let proxy := state.receiver
  match proxy.pc with
  | .ctsTest =>
      if proxy.inflightCts < edge.maxInflight ∧ state.credit edge proxy.nextCtsStep then
        some (state.recvGoto .ctsShadow)
      else if proxy.prepared then some (state.recvGoto .immTest)
      else some { state with receiver := { proxy with prepared := true, pc := .ctsTest } }
  | .ctsShadow =>
      some { state.recvGoto .ctsPost with
        shadow := Function.update state.shadow (edge.slot proxy.nextCtsStep)
          (ctsOf edge proxy.nextCtsStep) }
  | .ctsPost =>
      let slot := edge.slot proxy.nextCtsStep
      let wr : CtsWr :=
        { wrId := proxy.nextCtsStep
          signaled := signalsCts edge state
          slot := slot
          inlined := if edge.inlineCts then some (state.shadow slot) else none }
      some { state with
        ctsWrites := state.ctsWrites ++ [wr]
        receiver := { proxy with
          nextCtsStep := proxy.nextCtsStep + edge.stepIncrement
          inflightCts := proxy.inflightCts + 1
          pc := .ctsTest } }
  | .immTest =>
      if proxy.inflight < edge.maxInflight ∧ state.credit edge proxy.nextPostStep then
        some (state.recvGoto .immPost)
      else if proxy.prepared then some (state.recvGoto .poll)
      else some (state.recvGoto .ctsTest)
  | .immPost =>
      some { state with
        recvWrs := state.recvWrs ++ [proxy.nextPostStep]
        receiver := { proxy with
          nextPostStep := proxy.nextPostStep + edge.stepIncrement
          inflight := proxy.inflight + 1
          pc := .immTest } }
  | .drain 0 => some (state.recvGoto .ctsTest)
  | .drain (left + 1) =>
      match state.recvCq with
      | [] => none
      | wc :: later => some (drainRecv edge { state with recvCq := later } left wc)
  | .storeTail left =>
      some { state with
        recvFifo :=
          { state.recvFifo with tail := proxy.nextCompleteStep + edge.stepIncrement }
        receiver := { proxy with
          nextCompleteStep := proxy.nextCompleteStep + edge.stepIncrement
          inflight := proxy.inflight - 1
          pc := .drain left } }
  | .poll | .failed _ => none

/-- `ibv_poll_cq` of the receive proxy returns `count` completions. -/
def pollRecv (state : State) (count : ℕ) : Option State :=
  if state.receiver.pc = .poll ∧ count ≤ kPollBatch ∧ count ≤ state.recvCq.length then
    some (state.recvGoto (.drain count))
  else none

/-! ### The network -/

/-- The next CTS write reaches the sender's slot. A slot that was not inlined is fetched from the
shadow now. -/
def deliverCts (state : State) : Option State :=
  match state.ctsWrites[state.ctsDelivered]? with
  | none => none
  | some wr =>
      some { state with
        cts := Function.update state.cts wr.slot (wr.inlined.getD (state.shadow wr.slot))
        ctsDelivered := state.ctsDelivered + 1 }

/-- The next executed CTS write is acknowledged to the receiver. -/
def ackCts (state : State) : Option State :=
  if state.ctsAcked < state.ctsDelivered then
    match state.ctsWrites[state.ctsAcked]? with
    | none => none
    | some wr =>
        some { state with
          ctsAcked := state.ctsAcked + 1
          recvCq := if wr.signaled then state.recvCq ++ [.cts wr.wrId] else state.recvCq }
  else none

/-- The next WRITE is executed: its data lands, it consumes a receive work request, and it
completes at the sender when it is signaled. -/
def executeWrite (state : State) : Option State :=
  match state.writes[state.executed]?, state.recvWrs[state.executed]? with
  | some wr, some recvWrId =>
      some { state with
        recvFifo := state.recvFifo.land wr.remoteAddr
          (Memory.block state.sendFifo.data wr.addr wr.length)
        executed := state.executed + 1
        sendCq := if wr.signaled then state.sendCq ++ [wr.wrId] else state.sendCq
        recvCq := state.recvCq ++ [.imm recvWrId wr.immData] }
  | _, _ => none

/-! ### The edge -/

/-- One move of one party. -/
inductive Label
  /-- The producer writes a slice. -/
  | fill (payload : List UInt8)
  /-- The producer stores `send_tail`. -/
  | publish
  /-- The send proxy moves. -/
  | send
  /-- The send proxy polls. -/
  | pollSend (count : ℕ)
  /-- The receive proxy moves. -/
  | recv
  /-- The receive proxy polls. -/
  | pollRecv (count : ℕ)
  /-- A CTS write is executed. -/
  | deliverCts
  /-- A CTS write is acknowledged. -/
  | ackCts
  /-- A WRITE is executed. -/
  | executeWrite
  /-- The consumer reads a slice. -/
  | read
  /-- The consumer advances `recv_head`. -/
  | release
  deriving DecidableEq, Repr

/-- The transition function of the edge. -/
def step (edge : Edge) (state : State) : Label → Option State
  | .fill payload => (state.sendFifo.fill edge payload).map fun fifo =>
      { state with sendFifo := fifo }
  | .publish => (state.sendFifo.publish edge).map fun fifo => { state with sendFifo := fifo }
  | .send => sendStep edge state
  | .pollSend count => pollSend state count
  | .recv => recvStep edge state
  | .pollRecv count => pollRecv state count
  | .deliverCts => deliverCts state
  | .ackCts => ackCts state
  | .executeWrite => executeWrite state
  | .read => (state.recvFifo.read edge).map fun fifo => { state with recvFifo := fifo }
  | .release => (state.recvFifo.release edge).map fun fifo => { state with recvFifo := fifo }

/-- The states the edge can reach. -/
def Reachable (edge : Edge) (state : State) : Prop :=
  StepSystem.Reachable (step edge) (initial edge) state

end NanoNccl.Rdma.WriteCts
