import NanoNccl.Lib.Execution
import NanoNccl.Rdma.Proxy

/-!
# The SEND/RECV data plane

One edge without CTS: the receive proxy posts receive work requests for the slots that `recv_head`
frees, and the `k`-th SEND consumes the `k`-th of them. The `wr_id` of a receive work request is a
slot, so the two sides agree on steps only by counting alike. The receive proxy is built with
`elide_zero_payload = false`, as the communicator builds it. Steps are as fine as in the WRITE+CTS
plane.
-/

namespace NanoNccl.Rdma.SendRecv

/-- A SEND work request. -/
structure SendWr where
  /-- `wr_id`, the absolute step. -/
  wrId : ℕ
  /-- `IBV_SEND_SIGNALED`. -/
  signaled : Bool
  /-- `sge.addr`. -/
  addr : ℕ
  /-- `sge.length`. -/
  length : ℕ
  deriving DecidableEq, Repr

/-- A receive work request. -/
structure RecvWr where
  /-- `wr_id`, the slot. -/
  wrId : ℕ
  /-- `sge.addr`. -/
  addr : ℕ
  /-- `sge.length`. -/
  length : ℕ
  deriving DecidableEq, Repr

/-- A receive completion. -/
structure RecvWc where
  /-- `wr_id`. -/
  wrId : ℕ
  /-- `byte_len`. -/
  byteLen : ℕ
  deriving DecidableEq, Repr

/-- Exceptions of the send proxy. -/
inductive SendError
  /-- "rdma proxy send payload exceeds FIFO capacity" -/
  | payloadExceedsCapacity
  /-- "rdma send completion ..." -/
  | completion (error : CompletionError)
  deriving DecidableEq, Repr

/-- Where the send proxy stands in `progress_send_recv`, with its live locals. -/
inductive SendPc
  /-- Test of the posting loop and load of `send_tail`. -/
  | top
  /-- Load of the payload size. -/
  | size (tail : ℕ)
  /-- Load of the next size. -/
  | next (tail payload : ℕ)
  /-- `ibv_post_send`. -/
  | post (tail payload : ℕ) (nextZeroNeedsHead : Bool)
  /-- `ibv_poll_cq`. -/
  | poll
  /-- Completions of the batch left to process. -/
  | drain (left : ℕ)
  /-- Stopped by an exception. -/
  | failed (error : SendError)
  deriving DecidableEq, Repr

/-- Private state of the send proxy. -/
structure SendProxy where
  /-- `next_post_step_`. -/
  nextPostStep : ℕ
  /-- `next_complete_step_`. -/
  nextCompleteStep : ℕ
  /-- `inflight_`. -/
  inflight : ℕ
  /-- Program counter. -/
  pc : SendPc
  deriving DecidableEq, Repr

/-- Where the receive proxy stands in `prepare` or `progress_send_recv`. -/
inductive RecvPc
  /-- Test of the posting loop. -/
  | test
  /-- `pre_post_recv`. -/
  | post
  /-- `ibv_poll_cq`. -/
  | poll
  /-- Completions of the batch left to process. -/
  | drain (left : ℕ)
  /-- Store of `recv_tail`, after the size. -/
  | storeTail (left : ℕ)
  /-- Stopped by "rdma recv completion has unexpected FIFO slot". -/
  | unexpectedSlot
  deriving DecidableEq, Repr

/-- Private state of the receive proxy. -/
structure RecvProxy where
  /-- `prepared_`. -/
  prepared : Bool
  /-- `next_post_step_`. -/
  nextPostStep : ℕ
  /-- `next_complete_step_`. -/
  nextCompleteStep : ℕ
  /-- `inflight_`. -/
  inflight : ℕ
  /-- Program counter. -/
  pc : RecvPc
  deriving DecidableEq, Repr

/-- State of the edge. -/
structure State where
  /-- Send FIFO and producer. -/
  sendFifo : SendFifo
  /-- Receive FIFO and consumer. -/
  recvFifo : RecvFifo
  /-- Send proxy. -/
  sender : SendProxy
  /-- Receive proxy. -/
  receiver : RecvProxy
  /-- SENDs posted, oldest first. -/
  sends : List SendWr
  /-- Number of SENDs executed. -/
  executed : ℕ
  /-- Send completions not polled, oldest first. -/
  sendCq : List ℕ
  /-- Receive work requests posted, oldest first. -/
  recvWrs : List RecvWr
  /-- Receive completions not polled, oldest first. -/
  recvCq : List RecvWc

/-- Both proxies are constructed on fresh FIFOs. -/
def initial (edge : Edge) : State where
  sendFifo := SendFifo.fresh edge
  recvFifo := RecvFifo.fresh edge
  sender := ⟨edge.base, edge.base, 0, .top⟩
  receiver := ⟨false, edge.base, edge.base, 0, .test⟩
  sends := []
  executed := 0
  sendCq := []
  recvWrs := []
  recvCq := []

/-! ### The send proxy -/

/-- Move the send proxy to another program point. -/
def State.sendGoto (state : State) (pc : SendPc) : State :=
  { state with sender := { state.sender with pc := pc } }

/-- One step of `RdmaSendProxy::progress_send_recv` other than a poll. -/
def sendStep (edge : Edge) (state : State) : Option State :=
  let proxy := state.sender
  let slot := edge.slot proxy.nextPostStep
  match proxy.pc with
  | .top =>
      if proxy.inflight < edge.maxInflight ∧ proxy.nextPostStep < state.sendFifo.tail then
        some (state.sendGoto (.size state.sendFifo.tail))
      else some (state.sendGoto .poll)
  | .size tail =>
      let payload := state.sendFifo.sizes slot
      if edge.slotBytes < payload then some (state.sendGoto (.failed .payloadExceedsCapacity))
      else if payload = 0 then
        -- An empty slice is elided at the completion head, without any RDMA operation.
        if proxy.nextPostStep ≠ proxy.nextCompleteStep then some (state.sendGoto .poll)
        else some { state with
          sendFifo := { state.sendFifo with head := proxy.nextPostStep + edge.stepIncrement }
          sender := { proxy with
            nextPostStep := proxy.nextPostStep + edge.stepIncrement
            nextCompleteStep := proxy.nextCompleteStep + edge.stepIncrement
            pc := .top } }
      else some (state.sendGoto (.next tail payload))
  | .next tail payload =>
      let nextStep := proxy.nextPostStep + edge.stepIncrement
      let nextZeroNeedsHead :=
        decide (nextStep < tail ∧ state.sendFifo.sizes (edge.slot nextStep) = 0)
      some (state.sendGoto (.post tail payload nextZeroNeedsHead))
  | .post tail payload nextZeroNeedsHead =>
      let wr : SendWr :=
        { wrId := proxy.nextPostStep
          signaled := signalsData edge proxy.inflight tail proxy.nextPostStep nextZeroNeedsHead
          addr := edge.sendAddr slot
          length := payload }
      some { state with
        sends := state.sends ++ [wr]
        sender := { proxy with
          nextPostStep := proxy.nextPostStep + edge.stepIncrement
          inflight := proxy.inflight + 1
          pc := .top } }
  | .drain 0 => some (state.sendGoto .top)
  | .drain (left + 1) =>
      match state.sendCq with
      | [] => none
      | completedThrough :: later =>
          match completeThrough edge proxy.nextCompleteStep proxy.inflight completedThrough with
          | .error error => some (state.sendGoto (.failed (.completion error)))
          | .ok (nextCompleteStep, inflight) =>
              some { state with
                sendFifo := { state.sendFifo with head := nextCompleteStep }
                sendCq := later
                sender := { proxy with
                  nextCompleteStep := nextCompleteStep
                  inflight := inflight
                  pc := .drain left } }
  | .poll | .failed _ => none

/-- `ibv_poll_cq` of the send proxy returns `count` completions. -/
def pollSend (state : State) (count : ℕ) : Option State :=
  if state.sender.pc = .poll ∧ count ≤ kPollBatch ∧ count ≤ state.sendCq.length then
    some (state.sendGoto (.drain count))
  else none

/-! ### The receive proxy -/

/-- Move the receive proxy to another program point. -/
def State.recvGoto (state : State) (pc : RecvPc) : State :=
  { state with receiver := { state.receiver with pc := pc } }

/-- The receive work request `pre_post_recv` posts for a slot. -/
def recvWrOf (edge : Edge) (slot : ℕ) : RecvWr where
  wrId := slot
  addr := edge.recvAddr slot
  length := edge.slotBytes % 2 ^ 32

/-- One step of `RdmaRecvProxy::prepare` or `progress_send_recv` other than a poll. The two share
their posting loop. -/
def recvStep (edge : Edge) (state : State) : Option State :=
  let proxy := state.receiver
  match proxy.pc with
  | .test =>
      if proxy.inflight < edge.maxInflight ∧
          proxy.nextPostStep + edge.stepIncrement ≤ state.recvFifo.head + edge.slotCount then
        some (state.recvGoto .post)
      else if proxy.prepared then some (state.recvGoto .poll)
      else some { state with receiver := { proxy with prepared := true, pc := .test } }
  | .post =>
      some { state with
        recvWrs := state.recvWrs ++ [recvWrOf edge (edge.slot proxy.nextPostStep)]
        receiver := { proxy with
          nextPostStep := proxy.nextPostStep + edge.stepIncrement
          inflight := proxy.inflight + 1
          pc := .test } }
  | .drain 0 => some (state.recvGoto .test)
  | .drain (left + 1) =>
      match state.recvCq with
      | [] => none
      | wc :: later =>
          if wc.wrId ≠ edge.slot proxy.nextCompleteStep then
            some (state.recvGoto .unexpectedSlot)
          else some { state.recvGoto (.storeTail left) with
            recvCq := later
            recvFifo := state.recvFifo.storeSize wc.wrId wc.byteLen }
  | .storeTail left =>
      some { state with
        recvFifo :=
          { state.recvFifo with tail := proxy.nextCompleteStep + edge.stepIncrement }
        receiver := { proxy with
          nextCompleteStep := proxy.nextCompleteStep + edge.stepIncrement
          inflight := proxy.inflight - 1
          pc := .drain left } }
  | .poll | .unexpectedSlot => none

/-- `ibv_poll_cq` of the receive proxy returns `count` completions. -/
def pollRecv (state : State) (count : ℕ) : Option State :=
  if state.receiver.pc = .poll ∧ count ≤ kPollBatch ∧ count ≤ state.recvCq.length then
    some (state.recvGoto (.drain count))
  else none

/-! ### The network -/

/-- The next SEND consumes the next receive work request. A payload longer than that request's
buffer breaks the connection instead, and nothing moves any more. -/
def executeSend (state : State) : Option State :=
  match state.sends[state.executed]?, state.recvWrs[state.executed]? with
  | some wr, some recvWr =>
      if wr.length ≤ recvWr.length then
        some { state with
          recvFifo := state.recvFifo.land recvWr.addr
            (Memory.block state.sendFifo.data wr.addr wr.length)
          executed := state.executed + 1
          sendCq := if wr.signaled then state.sendCq ++ [wr.wrId] else state.sendCq
          recvCq := state.recvCq ++ [⟨recvWr.wrId, wr.length⟩] }
      else none
  | _, _ => none

/-! ### The edge -/

/-- One move of one party. -/
inductive Label
  /-- The producer writes a slice. -/
  | fill (payload : List UInt8)
  /-- The producer stores `send_tail`. -/
  | publish
  /-- The send proxy moves. -/
  | send
  /-- The send proxy polls. -/
  | pollSend (count : ℕ)
  /-- The receive proxy moves. -/
  | recv
  /-- The receive proxy polls. -/
  | pollRecv (count : ℕ)
  /-- A SEND is executed. -/
  | executeSend
  /-- The consumer reads a slice. -/
  | read
  /-- The consumer advances `recv_head`. -/
  | release
  deriving DecidableEq, Repr

/-- The transition function of the edge. -/
def step (edge : Edge) (state : State) : Label → Option State
  | .fill payload => (state.sendFifo.fill edge payload).map fun fifo =>
      { state with sendFifo := fifo }
  | .publish => (state.sendFifo.publish edge).map fun fifo => { state with sendFifo := fifo }
  | .send => sendStep edge state
  | .pollSend count => pollSend state count
  | .recv => recvStep edge state
  | .pollRecv count => pollRecv state count
  | .executeSend => executeSend state
  | .read => (state.recvFifo.read edge).map fun fifo => { state with recvFifo := fifo }
  | .release => (state.recvFifo.release edge).map fun fifo => { state with recvFifo := fifo }

/-- The states the edge can reach. -/
def Reachable (edge : Edge) (state : State) : Prop :=
  StepSystem.Reachable (step edge) (initial edge) state

end NanoNccl.Rdma.SendRecv
