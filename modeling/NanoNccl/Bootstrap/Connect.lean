import NanoNccl.Bootstrap.Topology
import NanoNccl.Lib.Execution
import NanoNccl.Socket.Hello

/-!
# The TCP bootstrap

Every edge of kind Socket or Rdma needs one TCP connection per channel between its two ranks. Each
rank walks over all edges and channels: the smaller rank of an edge connects to the listener of the
other one and names the edge in a HELLO, the larger rank counts how many connections it has to
accept and then accepts as many, in whatever order they have reached its listener.
-/

namespace NanoNccl
namespace Bootstrap

open Socket

/-- A ring with its channels and the resolved kinds of its edges, which all ranks share. -/
structure Network (n : ℕ) where
  two_le : 2 ≤ n
  /-- `kRanks` is an `int`. -/
  fits : n < 2 ^ 31
  kChannels : ℕ
  channels_pos : 0 < kChannels
  channels_le : kChannels ≤ 65536
  edgeKinds : Fin n → TransportKind

variable {n : ℕ} (network : Network n)

/-- The edge needs TCP connections. -/
def Network.Bootstraps (edge : Fin n) : Prop :=
  network.edgeKinds edge = .socket ∨ network.edgeKinds edge = .rdma

instance (edge : Fin n) : Decidable (network.Bootstraps edge) :=
  inferInstanceAs (Decidable (_ ∨ _))

/-- `process_for_global_rank`, counting processes and ranks from those already passed. -/
def processForGlobalRank (globalRank : ℕ) : (counts : List ℕ) → (process offset : ℕ) → Option ℕ
  | [], _, _ => none
  | count :: counts, process, offset =>
      if globalRank < offset + count then some process
      else processForGlobalRank globalRank counts (process + 1) (offset + count)

/-- The process of a rank when every process has one; `process_for_global_rank` does not throw. -/
def processOf (n globalRank : ℕ) : ℕ :=
  (processForGlobalRank globalRank (List.replicate n 1) 0 0).getD n

/-- The HELLO for a channel of an edge. -/
def helloOf (edge : Fin n) (channel : ℕ) : SocketHello := ⟨edge.val, (receiver edge).val, channel⟩

/-- The edge a number of a HELLO stands for. -/
def edgeKindOf (edge : ℤ) : TransportKind :=
  if inside : edge.toNat < n then network.edgeKinds ⟨edge.toNat, inside⟩ else .auto

/-- `is_expected_hello` -/
def isExpectedHello (hello : SocketHello) (rank : Fin n) : Bool :=
  if hello.sourceGlobalRank < 0 ∨ (n : ℤ) ≤ hello.sourceGlobalRank ∨
      hello.destinationGlobalRank ≠ (hello.sourceGlobalRank + 1) % n ∨
      hello.channel < 0 ∨ (network.kChannels : ℤ) ≤ hello.channel then false
  else
    let sourceProcess := processOf n hello.sourceGlobalRank.toNat
    let destinationProcess := processOf n hello.destinationGlobalRank.toNat
    let edgeKind := edgeKindOf network hello.sourceGlobalRank
    decide (sourceProcess ≠ destinationProcess) &&
      decide (sourceProcess = rank ∨ destinationProcess = rank) &&
      decide (rank.val = max sourceProcess destinationProcess) &&
      decide (edgeKind = .socket ∨ edgeKind = .rdma)

/-- One turn of the loop over the channels: the rank at the other end and the HELLO. -/
structure Turn where
  /-- `remote_process` -/
  remote : ℕ
  hello : SocketHello
  deriving DecidableEq, Repr

/-- The turns for one edge. -/
def edgeTurns (rank edge : Fin n) : List Turn :=
  let sourceProcess := processOf n edge
  let destinationProcess := processOf n (receiver edge)
  let remoteProcess := if sourceProcess = rank then destinationProcess else sourceProcess
  if network.Bootstraps edge ∧ (sourceProcess = rank ∨ destinationProcess = rank) then
    (List.range network.kChannels).map fun channel => ⟨remoteProcess, helloOf edge channel⟩
  else []

/-- The turns of the loops over the edges and channels. -/
def turns (rank : Fin n) : List Turn := (List.finRange n).flatMap (edgeTurns network rank)

/-! ### Ranks and connections -/

/-- `SocketConnection`, with the TCP connection its descriptor belongs to. -/
structure Connection where
  /-- Number of the TCP connection. -/
  tcp : ℕ
  hello : SocketHello
  deriving DecidableEq, Repr

/-- Exceptions of the bootstrap. -/
inductive ConnectError
  /-- Exception of `read_hello`. -/
  | hello (error : HelloError)
  /-- "socket HELLO describes an unexpected ring edge" -/
  | unexpectedEdge
  /-- "socket HELLO duplicates a ring edge and channel" -/
  | duplicate
  deriving DecidableEq, Repr

/-- Where a rank stands in the bootstrap. -/
inductive ConnectPc
  /-- The loops over edges and channels, with the turns left. -/
  | loop (todo : List Turn)
  /-- `write_all` in `connect`, with what is left to write and the turns after it. -/
  | write (tcp : ℕ) (hello : SocketHello) (rest : List UInt8) (todo : List Turn)
  /-- Test of the accepting loop and `accept`. -/
  | accept
  /-- `read_all` in `read_hello`, with the bytes read. -/
  | read (tcp : ℕ) (received : List UInt8)
  /-- Behind the loops. -/
  | done
  /-- Stopped by an exception. -/
  | failed (error : ConnectError)
  deriving DecidableEq, Repr

/-- State of a rank. -/
structure Member where
  pc : ConnectPc
  connections : List Connection
  /-- `expected_accepts` -/
  expectedAccepts : ℕ
  /-- `index` of the accepting loop. -/
  index : ℕ
  /-- `accepted_hellos` -/
  acceptedHellos : List ℕ
  deriving DecidableEq, Repr

/-- A TCP connection. -/
structure Tcp (n : ℕ) where
  /-- The rank that made it. -/
  client : Fin n
  /-- The rank whose listener it went to. -/
  server : ℕ
  /-- The HELLO its client wants to send. -/
  hello : SocketHello
  /-- Bytes written to it so far. -/
  sent : List UInt8
  /-- How many of them were read. -/
  taken : ℕ
  /-- The listener has accepted it. -/
  accepted : Bool
  deriving DecidableEq, Repr

/-- All ranks, and the connections between them in the order they were made. -/
structure ConnectState (n : ℕ) where
  members : Fin n → Member
  tcps : List (Tcp n)

/-- No rank has begun. -/
def initialConnect : ConnectState n where
  members := fun rank => ⟨.loop (turns network rank), [], 0, 0, []⟩
  tcps := []

/-- Change one rank. -/
def ConnectState.set (state : ConnectState n) (rank : Fin n) (member : Member) : ConnectState n :=
  { state with members := Function.update state.members rank member }

/-- Move a rank to another program point. -/
def Member.goto (member : Member) (pc : ConnectPc) : Member := { member with pc := pc }

/-- The accepting rank has a whole HELLO. -/
def Member.acceptHello (rank : Fin n) (member : Member) (tcp : ℕ) (received : List UInt8) :
    Member :=
  match readHello received with
  | .error error => member.goto (.failed (.hello error))
  | .ok hello =>
      if isExpectedHello network hello rank then
        if helloKey hello ∈ member.acceptedHellos then member.goto (.failed .duplicate)
        else
          { pc := .accept
            connections := member.connections ++ [⟨tcp, hello⟩]
            expectedAccepts := member.expectedAccepts
            index := member.index + 1
            acceptedHellos := member.acceptedHellos ++ [helloKey hello] }
      else member.goto (.failed .unexpectedEdge)

/-- One step of a rank that neither reads, writes nor accepts. -/
def localStep (state : ConnectState n) (rank : Fin n) : Option (ConnectState n) :=
  let member := state.members rank
  match member.pc with
  | .loop [] => some (state.set rank (member.goto .accept))
  | .loop (turn :: todo) =>
      if rank.val < turn.remote then
        some
          { members := Function.update state.members rank
              (member.goto (.write state.tcps.length turn.hello (wireHello turn.hello) todo))
            tcps := state.tcps ++ [⟨rank, turn.remote, turn.hello, [], 0, false⟩] }
      else
        some (state.set rank
          { member with pc := .loop todo, expectedAccepts := member.expectedAccepts + 1 })
  | .write tcp hello [] todo =>
      some (state.set rank
        { member with pc := .loop todo, connections := member.connections ++ [⟨tcp, hello⟩] })
  | .accept =>
      if member.index < member.expectedAccepts then none
      else some (state.set rank (member.goto .done))
  | .read tcp received =>
      if received.length < 16 then none
      else some (state.set rank (member.acceptHello network rank tcp received))
  | .write _ _ (_ :: _) _ | .done | .failed _ => none

/-- `send` takes so many bytes of the HELLO. -/
def sendHello (state : ConnectState n) (rank : Fin n) (count : ℕ) : Option (ConnectState n) :=
  let member := state.members rank
  match member.pc with
  | .write tcp hello rest todo =>
      if 0 < count ∧ count ≤ rest.length then
        some
          { members := Function.update state.members rank
              (member.goto (.write tcp hello (rest.drop count) todo))
            tcps := state.tcps.modify tcp fun link =>
              { link with sent := link.sent ++ rest.take count } }
      else none
  | .loop _ | .accept | .read _ _ | .done | .failed _ => none

/-- `accept` returns one of the connections that have reached the listener. -/
def acceptTcp (state : ConnectState n) (rank : Fin n) (tcp : ℕ) : Option (ConnectState n) :=
  let member := state.members rank
  match member.pc, state.tcps[tcp]? with
  | .accept, some link =>
      if member.index < member.expectedAccepts ∧ link.server = rank ∧ link.accepted = false then
        some
          { members := Function.update state.members rank (member.goto (.read tcp []))
            tcps := state.tcps.modify tcp fun link => { link with accepted := true } }
      else none
  | _, _ => none

/-- `recv` returns so many bytes of the HELLO. -/
def recvHello (state : ConnectState n) (rank : Fin n) (count : ℕ) : Option (ConnectState n) :=
  let member := state.members rank
  match member.pc with
  | .read tcp received =>
      match state.tcps[tcp]? with
      | none => none
      | some link =>
          if 0 < count ∧ link.taken + count ≤ link.sent.length ∧ received.length + count ≤ 16 then
            some
              { members := Function.update state.members rank
                  (member.goto (.read tcp (received ++ (link.sent.drop link.taken).take count)))
                tcps := state.tcps.modify tcp fun link =>
                  { link with taken := link.taken + count } }
          else none
  | .loop _ | .write _ _ _ _ | .accept | .done | .failed _ => none

/-- One move of a rank. -/
inductive ConnectLabel (n : ℕ)
  /-- The rank moves. -/
  | move (rank : Fin n)
  /-- It writes so many bytes of a HELLO. -/
  | send (rank : Fin n) (count : ℕ)
  /-- It accepts this connection. -/
  | accept (rank : Fin n) (tcp : ℕ)
  /-- It reads so many bytes of a HELLO. -/
  | recv (rank : Fin n) (count : ℕ)
  deriving DecidableEq, Repr

/-- The transition function. -/
def connectStep (state : ConnectState n) : ConnectLabel n → Option (ConnectState n)
  | .move rank => localStep network state rank
  | .send rank count => sendHello state rank count
  | .accept rank tcp => acceptTcp state rank tcp
  | .recv rank count => recvHello state rank count

/-- The states the bootstrap can reach. -/
def ConnectReachable (state : ConnectState n) : Prop :=
  StepSystem.Reachable (connectStep network) (initialConnect network) state

/-! ### Use of the connections -/

/-- `is_local_global_rank` of a process with one rank. -/
def isLocalGlobalRank (rank : Fin n) (globalRank : ℤ) : Bool :=
  decide ((rank.val : ℤ) ≤ globalRank ∧ globalRank < rank.val + 1)

/-- The identity check of the connections. -/
def hasRingIdentity (hello : SocketHello) : Bool :=
  !decide (hello.channel < 0 ∨ (network.kChannels : ℤ) ≤ hello.channel ∨
    hello.sourceGlobalRank < 0 ∨ (n : ℤ) ≤ hello.sourceGlobalRank ∨
    hello.destinationGlobalRank ≠ (hello.sourceGlobalRank + 1) % n)

/-- What a transport does with a rank's connections. -/
structure Uses where
  /-- Connections of send proxies. -/
  send : List Connection
  /-- Connections of receive proxies. -/
  recv : List Connection
  /-- Connections handed back to `socket_fds_`. -/
  residual : List Connection
  deriving DecidableEq, Repr

/-- One turn of the loop of `setup_socket_transport`, with `NANO_NCCL_ENABLE_RDMA`. -/
def useSocket (rank : Fin n) (uses : Uses) (connection : Connection) : Except String Uses :=
  let edge := connection.hello.sourceGlobalRank
  if hasRingIdentity network connection.hello then
    if edgeKindOf network edge = .rdma then
      .ok { uses with residual := uses.residual ++ [connection] }
    else if isLocalGlobalRank rank edge then .ok { uses with send := uses.send ++ [connection] }
    else if isLocalGlobalRank rank ((edge + 1) % n) then
      .ok { uses with recv := uses.recv ++ [connection] }
    else .error "global rank is not local to this process"
  else .error "socket connection has invalid ring identity"

/-- `setup_socket_transport`, as far as it distributes the connections. -/
def setupSocketTransport (rank : Fin n) (connections : List Connection) : Except String Uses :=
  connections.foldlM (useSocket network rank) ⟨[], [], []⟩

/-- One turn of the loop of `setup_rdma_transport`. -/
def useRdma (rank : Fin n) (uses : Uses) (connection : Connection) : Except String Uses :=
  let edge := connection.hello.sourceGlobalRank
  if hasRingIdentity network connection.hello then
    if edgeKindOf network edge ≠ .rdma then .ok uses
    else if isLocalGlobalRank rank edge then .ok { uses with send := uses.send ++ [connection] }
    else if isLocalGlobalRank rank ((edge + 1) % n) then
      .ok { uses with recv := uses.recv ++ [connection] }
    else .ok uses
  else .error "rdma connection has invalid ring identity"

/-- `setup_rdma_transport`, as far as it distributes the connections. -/
def setupRdmaTransport (rank : Fin n) (connections : List Connection) : Except String Uses :=
  if ∃ edge, network.edgeKinds edge = .rdma then
    connections.foldlM (useRdma network rank) ⟨[], [], []⟩
  else .ok ⟨[], [], []⟩

end Bootstrap
end NanoNccl
