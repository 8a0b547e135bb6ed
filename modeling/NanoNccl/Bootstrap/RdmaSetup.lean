import NanoNccl.Bootstrap.Uses
import NanoNccl.Lib.ScriptPhases
import NanoNccl.Rdma.PeerInfo

/-!
# The RDMA transport sets itself up

`setup_rdma_transport` talks to the neighbours over the TCP connections of the bootstrap: it sends
its `RdmaPeerInfo` on all of them, receives on all of them, connects the queue pairs, prepares the
receive proxies, exchanges one byte on every connection and only then lets the send proxies run.
-/

namespace NanoNccl
namespace Bootstrap

open Socket Rdma Scripts

variable {n : ℕ} (network : Network n)

/-- `PendingRdma`, as far as the loop that collects the connections fills it in. -/
structure PendingRdma where
  connection : Connection
  isSend : Bool
  isRecv : Bool
  deriving DecidableEq, Repr

/-- One turn of the loop that collects the connections. -/
def collectRdma (rank : Fin n) (pending : List PendingRdma) (connection : Connection) :
    Except String (List PendingRdma) :=
  let edge := connection.hello.sourceGlobalRank
  if hasRingIdentity network connection.hello then
    if edgeKindOf network edge ≠ .rdma then .ok pending
    else
      let isSend := isLocalGlobalRank rank edge
      let isRecv := isLocalGlobalRank rank ((edge + 1) % n)
      if !isSend && !isRecv then .ok pending else .ok (pending ++ [⟨connection, isSend, isRecv⟩])
  else .error "rdma connection has invalid ring identity"

/-- The connections of a rank's RDMA edges, from those the bootstrap has left it. -/
def pendingRdma (rank : Fin n) (connections : List Connection) :
    Except String (List PendingRdma) := do
  let socket ← setupSocketTransport network rank connections
  socket.residual.foldlM (collectRdma network rank) []

/-- One end of the connection for a channel of an edge: the edge, the channel and whether it is the
source's end. -/
abbrev Port (n : ℕ) := Fin n × ℕ × Bool

/-- The rank that holds an end. -/
def portOwner (port : Port n) : Fin n := if port.2.2 then port.1 else receiver port.1

/-- The other end. -/
def portPeer (port : Port n) : Port n := (port.1, port.2.1, !port.2.2)

/-- The edge a number of a HELLO stands for. -/
def edgeOf (edge : ℤ) : Fin n :=
  ⟨edge.toNat % n, Nat.mod_lt _ (Nat.lt_of_lt_of_le Nat.zero_lt_two network.two_le)⟩

/-- The end a rank holds with a connection. -/
def PendingRdma.port (item : PendingRdma) : Port n :=
  (edgeOf network item.connection.hello.sourceGlobalRank, item.connection.hello.channel.toNat,
    item.isSend)

/-- Settings and resources of all ranks. -/
structure RdmaWorld (n : ℕ) where
  setups : Fin n → RdmaSetup
  /-- `rdma_send_resources_` of the source, by edge and channel. -/
  sends : Fin n → ℕ → RdmaChannelResources
  /-- `rdma_recv_resources_` of the destination. -/
  receives : Fin n → ℕ → RdmaChannelResources
  /-- What stands in the padding of an `RdmaPeerInfo`. -/
  padding : Port n → UInt32

variable (world : RdmaWorld n)

/-- Resources at an end. -/
def RdmaWorld.resources (port : Port n) : RdmaChannelResources :=
  if port.2.2 then world.sends port.1 port.2.1 else world.receives port.1 port.2.1

/-- `local_info` at an end. -/
def RdmaWorld.info (port : Port n) : RdmaPeerInfo :=
  localInfo (world.setups (portOwner port)) (world.resources port) port.2.2 (!port.2.2)

/-- What is left to a rank between the calls that send and receive. -/
inductive RdmaTask
  /-- Check the other end and connect the queue pair. -/
  | connect (item : PendingRdma)
  /-- `prepare` of a proxy -/
  | prepare (item : PendingRdma)
  /-- Check the byte that tells that the other end is ready. -/
  | confirm (item : PendingRdma)
  /-- `start` of a proxy, which prepares it and runs it in a thread of its own -/
  | start (item : PendingRdma)
  /-- `rdma_progress_.start`, which runs all proxies in one thread -/
  | startEngine
  deriving DecidableEq, Repr

/-- Instructions with the ports of the ring. -/
abbrev RdmaOp (n : ℕ) := Op (Port n) UInt8 RdmaTask

/-- The byte that tells that a rank is ready. -/
def readyByte : UInt8 := 1

section Script

variable (rank : Fin n) (items : List PendingRdma)

/-- `send_all` of an `RdmaPeerInfo` -/
def sendInfo (item : PendingRdma) : List (RdmaOp n) :=
  (wirePeerInfo (world.info (item.port network)) (world.padding (item.port network))).map
    (.put (item.port network))

/-- `recv_all` of an `RdmaPeerInfo` -/
def recvInfo (item : PendingRdma) : List (RdmaOp n) :=
  List.replicate peerInfoBytes (.get (item.port network))

/-- `recv_all` of the other end's byte and the check that follows it -/
def recvReady (item : PendingRdma) : List (RdmaOp n) :=
  [.get (item.port network), .work (.confirm item)]

/-- What is done with the receive proxies before the bytes are exchanged. -/
def prepareRecv (item : PendingRdma) : RdmaTask :=
  if (world.setups rank).sharedProgress then .prepare item else .start item

/-- What is done with the send proxies after it. -/
def startSends : List (RdmaOp n) :=
  if (world.setups rank).sharedProgress then
    (items.filter fun item => item.isSend).map (.work ∘ .prepare) ++ [.work .startEngine]
  else (items.filter fun item => item.isSend).map (.work ∘ .start)

/-- `setup_rdma_transport` from the first `send_all` on, for the connections it has collected. -/
def rdmaPhases : List (List (RdmaOp n)) :=
  [items.flatMap (sendInfo network world), items.flatMap (recvInfo network),
    items.map (.work ∘ .connect),
    (items.filter fun item => !item.isSend).map (.work ∘ prepareRecv world rank),
    items.map fun item => .put (item.port network) readyByte,
    items.flatMap (recvReady network), startSends world rank items]

/-- The whole of it, which ends at once when no edge is an RDMA edge. -/
def rdmaScript : Script (Port n) UInt8 RdmaTask :=
  if ∃ edge, network.edgeKinds edge = .rdma then ofPhases 0 (rdmaPhases network world rank items)
  else []

/-- Whether a task succeeds. Errors of the verbs and of CUDA are errors of system calls. -/
def rdmaAccepts (task : RdmaTask) (view : Port n → List UInt8) : Bool :=
  match task with
  | .connect item =>
      match readPeerInfo (view (item.port network)) with
      | none => false
      | some remote =>
          match connectPeer (world.setups rank) (world.resources (item.port network)) item.isSend
              item.isRecv (item.port network).1 remote with
          | .ok _ => true
          | .error _ => false
  | .confirm item => decide ((view (item.port network))[peerInfoBytes]? = some readyByte)
  | .prepare _ | .start _ | .startEngine => true

end Script

/-- All ranks, and the TCP connections between them. -/
def rdmaNet (items : Fin n → List PendingRdma) (capacity : ℕ) :
    Net (Fin n) (Port n) UInt8 RdmaTask where
  script := fun rank => rdmaScript network world rank (items rank)
  owner := portOwner
  peer := portPeer
  capacity := capacity
  accepts := rdmaAccepts network world

/-! ### The connections of the RDMA edges -/

variable {network} {rank : Fin n} {connections : List Connection}

theorem IsEdge.isRecv {connection : Connection} (isEdge : IsEdge network rank connection) :
    isLocalGlobalRank rank ((connection.hello.sourceGlobalRank + 1) % n) =
      !isSource rank connection := by
  obtain ⟨edge, channel, -, hello, ends⟩ := isEdge
  have next : ((edge.val : ℤ) + 1) % n = ((receiver edge).val : ℤ) := by simp [receiver]
  have apart := receiver_ne network.two_le edge
  rw [Bool.eq_iff_iff, hello, helloOf, next, isLocalGlobalRank_iff]
  simp only [isSource, hello, helloOf, Bool.not_eq_true', decide_eq_false_iff_not,
    Int.natCast_inj, ← Fin.ext_iff]
  constructor
  · rintro receives rfl
    exact apart receives
  · exact fun other => ends.resolve_left other

theorem collectRdma_eq {connection : Connection} (isEdge : IsEdge network rank connection)
    (pending : List PendingRdma) :
    collectRdma network rank pending connection =
      .ok (pending ++ if isRdma network connection then
        [⟨connection, isSource rank connection, !isSource rank connection⟩] else []) := by
  have receives := isEdge.isRecv
  obtain ⟨edge, identity, kind, source, -⟩ := isEdge.checks
  by_cases rdma : network.edgeKinds edge = .rdma
  · cases own : isSource rank connection <;> rw [own] at receives source <;>
      simp [collectRdma, identity, kind, rdma, source, receives, isRdma]
  · simp [collectRdma, identity, kind, rdma, isRdma]

/-- The connections of the RDMA edges, with the roles of the rank. -/
theorem pendingRdma_eq (edges : ∀ c ∈ connections, IsEdge network rank c) :
    pendingRdma network rank connections =
      .ok ((connections.filter (isRdma network)).map fun connection =>
        ⟨connection, isSource rank connection, !isSource rank connection⟩) := by
  have residual : ∀ c ∈ connections.filter (isRdma network), IsEdge network rank c ∧
      isRdma network c = true :=
    fun c member => ⟨edges c (List.mem_filter.mp member).1, (List.mem_filter.mp member).2⟩
  have loop : ∀ (left : List Connection) (pending : List PendingRdma),
      (∀ c ∈ left, IsEdge network rank c ∧ isRdma network c = true) →
        left.foldlM (collectRdma network rank) pending =
          .ok (pending ++ left.map fun connection =>
            ⟨connection, isSource rank connection, !isSource rank connection⟩) := by
    intro left
    induction left with
    | nil => simp [pure, Except.pure]
    | cons connection left ih =>
        intro pending all
        obtain ⟨isEdge, rdma⟩ := all connection List.mem_cons_self
        rw [List.foldlM_cons, collectRdma_eq isEdge, if_pos rdma]
        simp only [bind, Except.bind]
        rw [ih _ fun c member => all c (List.mem_cons_of_mem _ member)]
        simp
  rw [pendingRdma, setupSocketTransport_eq edges]
  simp only [bind, Except.bind]
  rw [loop _ [] residual, List.nil_append]

theorem edgeOf_val (edge : Fin n) : edgeOf network (edge.val : ℤ) = edge := by
  simp [edgeOf, Nat.mod_eq_of_lt edge.isLt]

/-- What the collected connections are worth to a rank: it holds one end of the connection for each
channel of its RDMA edges, and nothing else. -/
structure Collected (network : Network n) (rank : Fin n) (items : List PendingRdma) : Prop where
  nodup : (items.map (PendingRdma.port network)).Nodup
  mem : ∀ port, port ∈ items.map (PendingRdma.port network) ↔
    portOwner port = rank ∧ network.edgeKinds port.1 = .rdma ∧ port.2.1 < network.kChannels
  recv : ∀ item ∈ items, item.isRecv = !item.isSend

/-- The end a rank holds with one of its connections. -/
theorem port_pendingOf {connection : Connection} {edge : Fin n} {channel : ℕ}
    (hello : connection.hello = helloOf edge channel) (isRecv : Bool) :
    PendingRdma.port network ⟨connection, isSource rank connection, isRecv⟩ =
      (edge, channel, decide (edge = rank)) := by
  have source : isSource rank connection = decide (edge = rank) := by
    rw [isSource, hello, helloOf]
    simp [Fin.ext_iff]
  rw [PendingRdma.port, source, hello, helloOf, edgeOf_val, Int.toNat_natCast]

theorem portOwner_of_ends {edge : Fin n} (ends : edge = rank ∨ receiver edge = rank)
    (channel : ℕ) : portOwner (edge, channel, decide (edge = rank)) = rank := by
  by_cases own : edge = rank
  · simp [portOwner, own]
  · simp [portOwner, own, ends.resolve_left own]

/-- The connections of the RDMA edges behind the bootstrap. -/
theorem ConnectInv.collected {state : ConnectState n} (inv : ConnectInv network state)
    (done : ∀ rank, (state.members rank).pc = .done) {items : List PendingRdma}
    (collects : pendingRdma network rank (state.members rank).connections = .ok items) :
    Collected network rank items := by
  have edges : ∀ c ∈ (state.members rank).connections, IsEdge network rank c :=
    fun c member => inv.isEdge member
  obtain rfl := Except.ok.inj (collects.symm.trans (pendingRdma_eq edges))
  have tcps : ((state.members rank).connections.map Connection.tcp).Nodup :=
    (inv rank).nodup_held.of_append_left
  refine ⟨?_, fun port => ⟨fun member => ?_, fun wants => ?_⟩, ?_⟩
  · rw [List.map_map]
    refine List.Nodup.map_on ?_ (tcps.of_map.filter _)
    intro first member second member' same
    have inside := (List.mem_filter.mp member).1
    have inside' := (List.mem_filter.mp member').1
    obtain ⟨edge, channel, -, hello, -⟩ := edges first inside
    obtain ⟨edge', channel', -, hello', -⟩ := edges second inside'
    simp only [Function.comp_apply, port_pendingOf hello, port_pendingOf hello',
      Prod.mk.injEq] at same
    obtain ⟨rfl, rfl, -⟩ := same
    obtain ⟨link, here, named⟩ := (inv rank).named first inside
    obtain ⟨link', here', named'⟩ := (inv rank).named second inside'
    have hellos : link.hello = link'.hello := by rw [named, named', hello, hello']
    exact List.inj_on_of_nodup_map tcps inside inside' (inv.eq_of_hello here here' hellos)
  · rw [List.map_map] at member
    obtain ⟨connection, kept, rfl⟩ := List.mem_map.mp member
    obtain ⟨inside, rdma⟩ := List.mem_filter.mp kept
    obtain ⟨edge, channel, wanted, hello, ends⟩ := edges connection inside
    rw [isRdma, hello, edgeKindOf_helloOf, decide_eq_true_eq] at rdma
    simp only [Function.comp_apply, port_pendingOf hello]
    exact ⟨portOwner_of_ends ends channel, rdma, wanted.channel_lt⟩
  · obtain ⟨edge, channel, source⟩ := port
    obtain ⟨owner, rdma, channel_lt⟩ := wants
    have wanted : Wanted network edge channel := ⟨.inr rdma, channel_lt⟩
    have apart := receiver_ne network.two_le edge
    have role : source = decide (edge = rank) := by
      cases source with
      | true => simpa [portOwner] using owner
      | false =>
          have receives : receiver edge = rank := by simpa [portOwner] using owner
          simp [← receives, apart.symm]
    obtain ⟨tcp, link, here, named, holders⟩ :=
      inv.exists_link (fun other => by rw [done]; rfl) wanted
    have holds : link.client = rank ∨ link.server = rank := by
      have ends : edge = rank ∨ receiver edge = rank := by
        cases source with
        | true => exact .inl (by simpa [portOwner] using owner)
        | false => exact .inr (by simpa [portOwner] using owner)
      rcases holders with ⟨client, server⟩ | ⟨client, server⟩ <;> rcases ends with rfl | rfl
      · exact .inl client
      · exact .inr server
      · exact .inr server
      · exact .inl client
    have only := inv.tcpsOf_eq (done rank) here holds
    have some_tcp : tcp ∈ tcpsOf (state.members rank).connections link.hello := by simp [only]
    obtain ⟨connection, kept, -⟩ := List.mem_map.mp some_tcp
    obtain ⟨inside, same⟩ := List.mem_filter.mp kept
    have hello : connection.hello = helloOf edge channel := by
      rw [of_decide_eq_true same, named]
    have isRdma : isRdma network connection = true := by
      rw [isRdma, hello, edgeKindOf_helloOf, decide_eq_true rdma]
    rw [List.map_map, role]
    refine List.mem_map.mpr ⟨connection, List.mem_filter.mpr ⟨inside, isRdma⟩, ?_⟩
    rw [Function.comp_apply, port_pendingOf hello]
  · intro item member
    obtain ⟨connection, -, rfl⟩ := List.mem_map.mp member
    rfl

/-- The two ends of a port are those of one TCP connection. -/
theorem ConnectInv.same_tcp {state : ConnectState n} (inv : ConnectInv network state)
    {rank' : Fin n} {items items' : List PendingRdma}
    (collects : pendingRdma network rank (state.members rank).connections = .ok items)
    (collects' : pendingRdma network rank' (state.members rank').connections = .ok items')
    {item item' : PendingRdma} (member : item ∈ items) (member' : item' ∈ items')
    (peers : item'.port network = portPeer (item.port network)) :
    item'.connection.tcp = item.connection.tcp := by
  obtain rfl := Except.ok.inj
    (collects.symm.trans (pendingRdma_eq fun c inside => inv.isEdge inside))
  obtain rfl := Except.ok.inj
    (collects'.symm.trans (pendingRdma_eq fun c inside => inv.isEdge inside))
  obtain ⟨connection, kept, rfl⟩ := List.mem_map.mp member
  obtain ⟨connection', kept', rfl⟩ := List.mem_map.mp member'
  have inside := (List.mem_filter.mp kept).1
  have inside' := (List.mem_filter.mp kept').1
  obtain ⟨edge, channel, -, hello, -⟩ := inv.isEdge inside
  obtain ⟨edge', channel', -, hello', -⟩ := inv.isEdge inside'
  rw [port_pendingOf hello, port_pendingOf hello', portPeer, Prod.mk.injEq, Prod.mk.injEq] at peers
  obtain ⟨rfl, rfl, -⟩ := peers
  obtain ⟨link, here, named⟩ := (inv rank).named connection inside
  obtain ⟨link', here', named'⟩ := (inv rank').named connection' inside'
  exact inv.eq_of_hello here' here (by rw [named, named', hello, hello'])

end Bootstrap
end NanoNccl
