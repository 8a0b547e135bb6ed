import NanoNccl.Bootstrap.Ends

/-!
# Use of the connections

The Socket transport takes the connections of Socket edges, sends on those whose edge starts at the
rank and receives from the others. It hands the connections of Rdma edges back, and the RDMA
transport divides them in the same way.
-/

namespace NanoNccl
namespace Bootstrap

open Socket StepSystem

variable {n : ℕ} {network : Network n}

/-- What the transports of a rank make of its connections. -/
structure Transports (network : Network n) (rank : Fin n) (connections : List Connection) where
  /-- Result of `setup_socket_transport`. -/
  socket : Uses
  /-- Result of `setup_rdma_transport`. -/
  rdma : Uses
  socket_eq : setupSocketTransport network rank connections = .ok socket
  rdma_eq : setupRdmaTransport network rank socket.residual = .ok rdma

/-- What becomes of the connections under the HELLO of an edge and a channel: the transport of the
edge sends on `sends` and receives from `recvs`, and the other one uses none of them. Connections
of an Rdma edge are handed back by the Socket transport. -/
structure Transports.Roles {rank : Fin n} {connections : List Connection}
    (transports : Transports network rank connections) (edge : Fin n) (channel : ℕ)
    (sends recvs : List ℕ) : Prop where
  socket_send : tcpsOf transports.socket.send (helloOf edge channel) =
    if network.edgeKinds edge = .rdma then [] else sends
  socket_recv : tcpsOf transports.socket.recv (helloOf edge channel) =
    if network.edgeKinds edge = .rdma then [] else recvs
  residual : tcpsOf transports.socket.residual (helloOf edge channel) =
    if network.edgeKinds edge = .rdma then sends ++ recvs else []
  rdma_send : tcpsOf transports.rdma.send (helloOf edge channel) =
    if network.edgeKinds edge = .rdma then sends else []
  rdma_recv : tcpsOf transports.rdma.recv (helloOf edge channel) =
    if network.edgeKinds edge = .rdma then recvs else []

/-- A loop over connections that puts each of them into the lists it belongs to. -/
theorem foldlM_uses {use : Uses → Connection → Except String Uses}
    {sends recvs keeps : Connection → Bool} (connections : List Connection)
    (each : ∀ connection ∈ connections, ∀ uses, use uses connection =
      .ok ⟨uses.send ++ [connection].filter sends, uses.recv ++ [connection].filter recvs,
        uses.residual ++ [connection].filter keeps⟩) (uses : Uses) :
    connections.foldlM use uses =
      .ok ⟨uses.send ++ connections.filter sends, uses.recv ++ connections.filter recvs,
        uses.residual ++ connections.filter keeps⟩ := by
  induction connections generalizing uses with
  | nil => simp [pure, Except.pure]
  | cons connection connections ih =>
      have later := ih fun other member => each other (List.mem_cons_of_mem _ member)
      have split : ∀ keep : Connection → Bool, (connection :: connections).filter keep =
          [connection].filter keep ++ connections.filter keep := fun keep => by
        rw [← List.filter_append, List.singleton_append]
      rw [List.foldlM_cons, each connection List.mem_cons_self uses, split, split, split]
      simp [bind, Except.bind, later, List.append_assoc]

section Roles

variable (network) (rank : Fin n)

/-- The connection is for an edge of kind Rdma. -/
def isRdma (connection : Connection) : Bool :=
  decide (edgeKindOf network connection.hello.sourceGlobalRank = .rdma)

/-- The rank is the source of the edge. -/
def isSource (connection : Connection) : Bool :=
  decide (connection.hello.sourceGlobalRank = rank.val)

end Roles

theorem hasRingIdentity_helloOf {edge : Fin n} {channel : ℕ}
    (wanted : Wanted network edge channel) :
    hasRingIdentity network (helloOf edge channel) = true := by
  have next : ((receiver edge).val : ℤ) = ((edge.val : ℤ) + 1) % n := by
    simp [receiver]
  have channel_lt := wanted.channel_lt
  rw [hasRingIdentity, Bool.not_eq_true', decide_eq_false_iff_not]
  simp only [helloOf, next]
  omega

theorem isLocalGlobalRank_iff {rank other : Fin n} :
    isLocalGlobalRank rank (other.val : ℤ) = true ↔ other = rank := by
  rw [isLocalGlobalRank, decide_eq_true_eq, Fin.ext_iff]
  omega

section Setup

variable {rank : Fin n} {connection : Connection} {connections : List Connection}

/-- The loops of both transports pass the same checks. -/
theorem IsEdge.checks (isEdge : IsEdge network rank connection) :
    ∃ edge, hasRingIdentity network connection.hello = true ∧
      edgeKindOf network connection.hello.sourceGlobalRank = network.edgeKinds edge ∧
      isLocalGlobalRank rank connection.hello.sourceGlobalRank = isSource rank connection ∧
      (isSource rank connection = false →
        isLocalGlobalRank rank ((connection.hello.sourceGlobalRank + 1) % n) = true) := by
  obtain ⟨edge, channel, wanted, hello, ends⟩ := isEdge
  have source : connection.hello.sourceGlobalRank = (edge.val : ℤ) := by rw [hello, helloOf]
  have next : ((edge.val : ℤ) + 1) % n = ((receiver edge).val : ℤ) := by simp [receiver]
  refine ⟨edge, hello ▸ hasRingIdentity_helloOf wanted, by rw [hello, edgeKindOf_helloOf], ?_, ?_⟩
  · rw [Bool.eq_iff_iff, source, isLocalGlobalRank_iff, isSource, decide_eq_true_eq, source,
      Fin.ext_iff]
    exact Int.natCast_inj.symm
  · intro other
    have apart : edge ≠ rank := by
      rintro rfl
      simp [isSource, source] at other
    rw [source, next]
    exact isLocalGlobalRank_iff.mpr (ends.resolve_left apart)

theorem useSocket_eq (isEdge : IsEdge network rank connection) (uses : Uses) :
    useSocket network rank uses connection =
      .ok ⟨uses.send ++ [connection].filter fun c => !isRdma network c && isSource rank c,
        uses.recv ++ [connection].filter fun c => !isRdma network c && !isSource rank c,
        uses.residual ++ [connection].filter (isRdma network)⟩ := by
  obtain ⟨edge, identity, kind, source, receives⟩ := isEdge.checks
  by_cases rdma : network.edgeKinds edge = .rdma
  · simp [useSocket, isRdma, identity, kind, rdma]
  · cases own : isSource rank connection with
    | true => simp [useSocket, isRdma, identity, kind, rdma, source, own]
    | false => simp [useSocket, isRdma, identity, kind, rdma, source, own, receives own]

theorem useRdma_eq (isEdge : IsEdge network rank connection) (uses : Uses) :
    useRdma network rank uses connection =
      .ok ⟨uses.send ++ [connection].filter fun c => isRdma network c && isSource rank c,
        uses.recv ++ [connection].filter fun c => isRdma network c && !isSource rank c,
        uses.residual ++ [connection].filter fun _ => false⟩ := by
  obtain ⟨edge, identity, kind, source, receives⟩ := isEdge.checks
  by_cases rdma : network.edgeKinds edge = .rdma
  · cases own : isSource rank connection with
    | true => simp [useRdma, isRdma, identity, kind, rdma, source, own]
    | false => simp [useRdma, isRdma, identity, kind, rdma, source, own, receives own]
  · simp [useRdma, isRdma, identity, kind, rdma]

theorem setupSocketTransport_eq (edges : ∀ c ∈ connections, IsEdge network rank c) :
    setupSocketTransport network rank connections =
      .ok ⟨connections.filter fun c => !isRdma network c && isSource rank c,
        connections.filter fun c => !isRdma network c && !isSource rank c,
        connections.filter (isRdma network)⟩ :=
  foldlM_uses connections (fun c member uses => useSocket_eq (edges c member) uses) ⟨[], [], []⟩

theorem setupRdmaTransport_eq (edges : ∀ c ∈ connections, IsEdge network rank c) :
    setupRdmaTransport network rank connections =
      .ok ⟨connections.filter fun c => isRdma network c && isSource rank c,
        connections.filter fun c => isRdma network c && !isSource rank c, []⟩ := by
  rw [setupRdmaTransport]
  split
  next =>
    have all := foldlM_uses connections (fun c member uses => useRdma_eq (edges c member) uses)
      ⟨[], [], []⟩
    simpa using all
  next none =>
    have others : ∀ c ∈ connections, isRdma network c = false := by
      intro c member
      obtain ⟨edge, channel, -, hello, -⟩ := edges c member
      have kind : network.edgeKinds edge ≠ .rdma := fun rdma => none ⟨edge, rdma⟩
      rw [isRdma, hello, edgeKindOf_helloOf, decide_eq_false kind]
    have empty : ∀ keep : Connection → Bool,
        connections.filter (fun c => isRdma network c && keep c) = [] := fun keep =>
      List.filter_eq_nil_iff.mpr fun c member => by simp [others c member]
    rw [empty, empty]

/-- Connections under a HELLO are kept together. -/
theorem tcpsOf_filter {hello : SocketHello} {keep : Connection → Bool} {kept : Bool}
    (same : ∀ c : Connection, c.hello = hello → keep c = kept) :
    tcpsOf (connections.filter keep) hello = if kept then tcpsOf connections hello else [] := by
  rw [tcpsOf, List.filter_filter]
  cases kept with
  | true =>
      rw [if_pos rfl, tcpsOf]
      congr 1
      refine List.filter_congr fun c _ => ?_
      by_cases here : c.hello = hello
      · simp [here, same c here]
      · simp [here]
  | false =>
      rw [if_neg Bool.false_ne_true, List.map_eq_nil_iff, List.filter_eq_nil_iff]
      intro c _
      by_cases here : c.hello = hello
      · simp [here, same c here]
      · simp [here]

end Setup

/-- A rank sends on the connections of the edge that starts at it and receives from those of the
other. -/
theorem exists_transports {rank : Fin n} {connections : List Connection}
    (edges : ∀ c ∈ connections, IsEdge network rank c) :
    ∃ transports : Transports network rank connections, ∀ (edge : Fin n) (channel : ℕ),
      transports.Roles edge channel
        (if edge = rank then tcpsOf connections (helloOf edge channel) else [])
        (if edge = rank then [] else tcpsOf connections (helloOf edge channel)) := by
  have residual : ∀ c ∈ connections.filter (isRdma network), IsEdge network rank c :=
    fun c member => edges c (List.mem_filter.mp member).1
  refine ⟨⟨_, _, setupSocketTransport_eq edges, setupRdmaTransport_eq residual⟩, ?_⟩
  intro edge channel
  have rdma_of : ∀ c : Connection, c.hello = helloOf edge channel →
      isRdma network c = decide (network.edgeKinds edge = .rdma) := fun c same => by
    rw [isRdma, same, edgeKindOf_helloOf]
  have source_of : ∀ c : Connection, c.hello = helloOf edge channel →
      isSource rank c = decide (edge = rank) := fun c same => by
    rw [isSource, same, helloOf]
    simp [Fin.ext_iff]
  have sends_rdma : ∀ c : Connection, c.hello = helloOf edge channel →
      (isRdma network c && isSource rank c) =
        (decide (network.edgeKinds edge = .rdma) && decide (edge = rank)) :=
    fun c same => by rw [rdma_of c same, source_of c same]
  have recvs_rdma : ∀ c : Connection, c.hello = helloOf edge channel →
      (isRdma network c && !isSource rank c) =
        (decide (network.edgeKinds edge = .rdma) && !decide (edge = rank)) :=
    fun c same => by rw [rdma_of c same, source_of c same]
  have sends_socket : ∀ c : Connection, c.hello = helloOf edge channel →
      (!isRdma network c && isSource rank c) =
        (!decide (network.edgeKinds edge = .rdma) && decide (edge = rank)) :=
    fun c same => by rw [rdma_of c same, source_of c same]
  have recvs_socket : ∀ c : Connection, c.hello = helloOf edge channel →
      (!isRdma network c && !isSource rank c) =
        (!decide (network.edgeKinds edge = .rdma) && !decide (edge = rank)) :=
    fun c same => by rw [rdma_of c same, source_of c same]
  constructor
  all_goals
    simp only [tcpsOf_filter sends_rdma, tcpsOf_filter recvs_rdma, tcpsOf_filter sends_socket,
      tcpsOf_filter recvs_socket, tcpsOf_filter rdma_of]
    by_cases own : edge = rank
    · subst own
      by_cases rdma : network.edgeKinds edge = .rdma <;> simp [rdma]
    · by_cases rdma : network.edgeKinds edge = .rdma <;> simp [rdma, own]

/-- Every HELLO is read as it was written and passes the checks, a rank gets as many connections as
it has counted, and both ranks of an edge hold and use the same connection for each channel. -/
theorem edges_matched {state : ConnectState n} (reachable : ConnectReachable network state) :
    (∀ rank tcp received, (state.members rank).pc = .read tcp received → received.length = 16 →
      ∃ link, state.tcps[tcp]? = some link ∧ link.server = rank ∧
        readHello received = .ok link.hello ∧ isExpectedHello network link.hello rank = true ∧
        helloKey link.hello ∉ (state.members rank).acceptedHellos) ∧
    (∀ rank error, (state.members rank).pc ≠ .failed error) ∧
    ((∀ rank, (state.members rank).pc.todo = []) → ∀ rank : Fin n,
      (state.tcps.filter fun link => decide (link.server = rank.val)).length =
        (state.members rank).expectedAccepts) ∧
    ((∀ rank, (state.members rank).pc = .done) → ∀ edge channel, Wanted network edge channel →
      ∃ (tcp : ℕ) (link : Tcp n)
        (source : Transports network edge (state.members edge).connections)
        (destination : Transports network (receiver edge)
          (state.members (receiver edge)).connections),
        state.tcps[tcp]? = some link ∧ link.accepted = true ∧
        (link.client = edge ∧ link.server = receiver edge ∨
          link.client = receiver edge ∧ link.server = edge) ∧
        tcpsOf (state.members edge).connections (helloOf edge channel) = [tcp] ∧
        tcpsOf (state.members (receiver edge)).connections (helloOf edge channel) = [tcp] ∧
        source.Roles edge channel [tcp] [] ∧ destination.Roles edge channel [] [tcp]) := by
  have inv := reachable.inv
  refine ⟨?_, fun rank => (inv rank).unfailed, ?_, ?_⟩
  · intro rank tcp received at_pc whole
    obtain ⟨link, here, server, rfl⟩ := inv.received_eq at_pc whole.ge
    have expected := inv.hello_mem here server
    exact ⟨link, here, server, readHello_of_mem expected, isExpectedHello_of_mem expected,
      inv.not_accepted at_pc here server⟩
  · intro behind rank
    rw [(inv rank).expectedAccepts_eq (behind rank), ← (inv.hellos_perm behind rank).length_eq,
      List.length_map]
  · intro done edge channel wanted
    have behind : ∀ rank, (state.members rank).pc.todo = [] := fun rank => by rw [done]; rfl
    have other : edge ≠ receiver edge := (receiver_ne network.two_le edge).symm
    obtain ⟨tcp, link, here, named, ends⟩ := inv.exists_link behind wanted
    obtain ⟨source, sends⟩ := exists_transports fun c => inv.isEdge
    obtain ⟨destination, recvs⟩ :=
      exists_transports fun c => inv.isEdge
    have at_source := inv.tcpsOf_eq (done edge) here (ends.imp And.left And.right)
    have at_destination :=
      inv.tcpsOf_eq (done (receiver edge)) here (ends.symm.imp And.left And.right)
    rw [named] at at_source at_destination
    refine ⟨tcp, link, source, destination, here, ?_, ends, at_source, at_destination, ?_, ?_⟩
    · rcases ends with ⟨-, server⟩ | ⟨-, server⟩
      · exact inv.accepted_of_done (done _) here server
      · exact inv.accepted_of_done (done _) here server
    · have roles := sends edge channel
      rwa [if_pos rfl, if_pos rfl, at_source] at roles
    · have roles := recvs edge channel
      rwa [if_neg other, if_neg other, at_destination] at roles

/-! ### Two ranks -/

/-- An RDMA edge and a TCP edge between two ranks. -/
def twoRanks : Network 2 where
  two_le := le_rfl
  fits := by decide
  kChannels := 1
  channels_pos := by decide
  channels_le := by decide
  edgeKinds := fun edge => if edge = 0 then .rdma else .socket

/-- Both ranks bootstrap; the larger one accepts the second connection first. -/
def twoRanksRun : List (ConnectLabel 2) :=
  [.move 0, .send 0 16, .move 0, .move 0, .send 0 7, .move 1, .move 1, .move 1, .accept 1 1,
    .recv 1 7, .send 0 9, .recv 1 9, .move 1, .accept 1 0, .recv 1 16, .move 1, .move 1, .move 0,
    .move 0, .move 0]

/-- Where both ranks stand behind the run, and what they hold. -/
theorem exists_twoRanks : ∃ state : ConnectState 2,
    exec (connectStep twoRanks) (initialConnect twoRanks) twoRanksRun = some state ∧
      (∀ rank, (state.members rank).pc = .done) ∧
      (state.members 0).connections = [⟨0, helloOf (0 : Fin 2) 0⟩, ⟨1, helloOf (1 : Fin 2) 0⟩] := by
  have ends : ((exec (connectStep twoRanks) (initialConnect twoRanks) twoRanksRun).map fun state =>
      ((state.members 0).pc, (state.members 1).pc, (state.members 0).connections)) =
      some (.done, .done, [⟨0, helloOf (0 : Fin 2) 0⟩, ⟨1, helloOf (1 : Fin 2) 0⟩]) := by
    decide +kernel
  obtain ⟨state, execution, same⟩ := Option.map_eq_some_iff.mp ends
  simp only [Prod.mk.injEq] at same
  exact ⟨state, execution, Fin.forall_fin_two.mpr ⟨same.1, same.2.1⟩, same.2.2⟩

theorem twoRanks_wanted : Wanted twoRanks 0 0 := ⟨by decide, by decide⟩

/-- The two ranks of an RDMA edge. -/
theorem edges_matched_twoRanks : ∃ (state : ConnectState 2) (tcp : ℕ)
    (source : Transports twoRanks 0 (state.members 0).connections)
    (destination : Transports twoRanks 1 (state.members 1).connections),
    tcpsOf (state.members 0).connections (helloOf (0 : Fin 2) 0) = [tcp] ∧
      tcpsOf (state.members 1).connections (helloOf (0 : Fin 2) 0) = [tcp] ∧
      tcpsOf source.socket.residual (helloOf (0 : Fin 2) 0) = [tcp] ∧
      tcpsOf source.rdma.send (helloOf (0 : Fin 2) 0) = [tcp] ∧
      tcpsOf source.rdma.recv (helloOf (0 : Fin 2) 0) = [] ∧
      tcpsOf destination.rdma.recv (helloOf (0 : Fin 2) 0) = [tcp] := by
  obtain ⟨state, execution, done, -⟩ := exists_twoRanks
  obtain ⟨tcp, -, source, destination, -, -, -, at_source, at_destination, sends, recvs⟩ :=
    (edges_matched ⟨twoRanksRun, execution⟩).2.2.2 done 0 0 twoRanks_wanted
  exact ⟨state, tcp, source, destination, at_source, at_destination, sends.residual,
    sends.rdma_send, sends.rdma_recv, recvs.rdma_recv⟩

/-- `setup_socket_transport` does not send on the connection of the RDMA edge. -/
theorem twoRanks_rdma_not_socket : ∃ (state : ConnectState 2) (uses : Uses),
    ConnectReachable twoRanks state ∧ (∀ rank, (state.members rank).pc = .done) ∧
      Wanted twoRanks 0 0 ∧
      tcpsOf (state.members 0).connections (helloOf (0 : Fin 2) 0) = [0] ∧
      setupSocketTransport twoRanks 0 (state.members 0).connections = .ok uses ∧
      tcpsOf uses.send (helloOf (0 : Fin 2) 0) = [] := by
  obtain ⟨state, execution, done, connections⟩ := exists_twoRanks
  refine ⟨state, ⟨[], [⟨1, helloOf (1 : Fin 2) 0⟩], [⟨0, helloOf (0 : Fin 2) 0⟩]⟩,
    ⟨twoRanksRun, execution⟩, done, twoRanks_wanted, ?_, ?_, rfl⟩
  · rw [connections]
    rfl
  · rw [connections]
    rfl

end Bootstrap
end NanoNccl
