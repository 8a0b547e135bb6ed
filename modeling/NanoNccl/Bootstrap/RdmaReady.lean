import NanoNccl.Bootstrap.RdmaExchange

/-!
# RDMA transports that are ready

What the exchange guarantees: a send proxy runs only behind an end that has accepted its peer and
prepared its receive proxy, and the setups of all ranks end, without an error exactly when the ranks
agree.
-/

namespace NanoNccl
namespace Bootstrap

open Socket Rdma Scripts StepSystem

variable {n : ℕ} {network : Network n} {world : RdmaWorld n} {rank edge : Fin n} {channel : ℕ}

/-! ### Agreement -/

/-- The two ends of every RDMA edge suit each other. -/
def Agree (network : Network n) (world : RdmaWorld n) : Prop :=
  ∀ edge channel, network.edgeKinds edge = .rdma → channel < network.kChannels →
    Compatible (world.setups edge) (world.setups (receiver edge)) (world.sends edge channel)
      (world.receives edge channel)

/-- An end accepts what its peer has sent. -/
def AcceptsAt (world : RdmaWorld n) (port : Port n) : Prop :=
  Accepts (world.setups (portOwner port)) (world.resources port) port.2.2
    (world.info (portPeer port))

theorem acceptsAt_both_iff : AcceptsAt world (edge, channel, true) ∧
      AcceptsAt world (edge, channel, false) ↔
    Compatible (world.setups edge) (world.setups (receiver edge)) (world.sends edge channel)
      (world.receives edge channel) := accepts_both_iff

variable {all : Fin n → List PendingRdma} {capacity : ℕ}

section Tasks

variable (collected : ∀ rank, Collected network rank (all rank))
include collected

theorem portOwner_of_mem {item : PendingRdma} (member : item ∈ all rank) :
    portOwner (item.port network) = rank :=
  (((collected rank).mem _).mp (List.mem_map_of_mem member)).1

theorem rdmaAccepts_connect_iff {item : PendingRdma} (member : item ∈ all rank)
    {view : Port n → List UInt8}
    (seen : view (item.port network) = wirePeerInfo (world.info (portPeer (item.port network)))
      (world.padding (portPeer (item.port network)))) :
    rdmaAccepts network world rank (.connect item) view = true ↔
      AcceptsAt world (item.port network) := by
  have owner := portOwner_of_mem collected member
  have roles := (collected rank).recv item member
  have read := readPeerInfo_wirePeerInfo (world.info (portPeer (item.port network)))
    (world.padding (portPeer (item.port network)))
  simp only [rdmaAccepts, seen, read, roles]
  rw [AcceptsAt, owner]
  split
  next proxy made => exact iff_of_true rfl (connectPeer_eq_ok.mp made).1
  next message refused =>
    refine iff_of_false Bool.false_ne_true fun accepts => ?_
    cases refused.symm.trans (connectPeer_eq_ok.mpr ⟨accepts, rfl⟩)

/-- Only the checks of the other ends can fail. -/
theorem rdmaAccepts_iff {k phase : ℕ} {task : RdmaTask}
    (here : (rdmaScript network world rank (all rank))[k]? = some (phase, .work task)) :
    rdmaAccepts network world rank task ((rdmaNet network world all capacity).viewAt rank
        ((rdmaScript network world rank (all rank)).take k)) = true ↔
      ∀ item, task = .connect item → AcceptsAt world (item.port network) := by
  rcases task_cases capacity collected here with ⟨item, member, rfl, -, seen⟩ |
    ⟨item, member, rfl, -, seen⟩ | ⟨item, -, -, rfl, -⟩ | ⟨starts, -⟩
  · rw [rdmaAccepts_connect_iff collected member seen]
    simp
  · refine iff_of_true ?_ nofun
    simp [rdmaAccepts, seen, portMessage]
  · unfold prepareRecv
    split <;> simp [rdmaAccepts]
  · rcases task_of_mem_startSends starts with ⟨item, -, rfl | rfl⟩ | rfl <;> simp [rdmaAccepts]

theorem connect_mem_rdmaScript {item : PendingRdma} (member : item ∈ all rank) :
    (2, .work (.connect item)) ∈ rdmaScript network world rank (all rank) := by
  rw [rdmaScript_of_mem (collected rank) (List.mem_map_of_mem member)]
  exact mem_ofPhases.mpr ⟨2, _, rfl, rfl, List.mem_map_of_mem member⟩

theorem prepare_mem_rdmaScript {item : PendingRdma} (member : item ∈ all rank)
    (role : item.isSend = false) :
    (3, .work (prepareRecv world rank item)) ∈ rdmaScript network world rank (all rank) := by
  rw [rdmaScript_of_mem (collected rank) (List.mem_map_of_mem member)]
  refine mem_ofPhases.mpr ⟨3, _, rfl, rfl, List.mem_map.mpr ⟨item, ?_, rfl⟩⟩
  exact List.mem_filter.mpr ⟨member, by simp [role]⟩

/-- Every end of an RDMA edge has its item. -/
theorem exists_item (port : Port n) (rdma : network.edgeKinds port.1 = .rdma)
    (channel_lt : port.2.1 < network.kChannels) :
    ∃ item ∈ all (portOwner port), item.port network = port :=
  List.mem_map.mp (((collected _).mem port).mpr ⟨rfl, rdma, channel_lt⟩)

/-- All checks pass when the ranks agree, and only then. -/
theorem accepting_iff : (rdmaNet network world all capacity).Accepting ↔ Agree network world := by
  constructor
  · intro accepting edge channel rdma channel_lt
    have at_port (port : Port n) (edge_rdma : network.edgeKinds port.1 = .rdma)
        (inside : port.2.1 < network.kChannels) : AcceptsAt world port := by
      obtain ⟨item, member, rfl⟩ := exists_item collected port edge_rdma inside
      obtain ⟨k, here⟩ := List.mem_iff_getElem?.mp (connect_mem_rdmaScript collected member)
      exact (rdmaAccepts_iff collected here).mp (accepting _ k 2 _ here) item rfl
    exact acceptsAt_both_iff.mp ⟨at_port (edge, channel, true) rdma channel_lt,
      at_port (edge, channel, false) rdma channel_lt⟩
  · intro agree rank k phase task here
    refine (rdmaAccepts_iff collected here).mpr fun item same => ?_
    subst same
    rcases task_cases capacity collected here with ⟨other, member, same, -⟩ |
      ⟨other, -, same, -⟩ | ⟨other, -, -, same, -⟩ | ⟨starts, -⟩
    · obtain rfl := RdmaTask.connect.inj same
      obtain ⟨-, rdma, channel_lt⟩ := ((collected rank).mem _).mp (List.mem_map_of_mem member)
      generalize item.port network = port at rdma channel_lt ⊢
      obtain ⟨edge, channel, source⟩ := port
      have both := acceptsAt_both_iff.mpr (agree edge channel rdma channel_lt)
      cases source with
      | true => exact both.1
      | false => exact both.2
    · cases same
    · unfold prepareRecv at same
      split at same <;> cases same
    · rcases task_of_mem_startSends starts with ⟨other, -, same | same⟩ | same <;> cases same

end Tasks

/-! ### Senders wait for their receivers -/

section Ready

/-- A rank has completed a task of its script. -/
def Did (network : Network n) (world : RdmaWorld n) (all : Fin n → List PendingRdma)
    (state : State (Fin n) (Port n) UInt8) (rank : Fin n) (task : RdmaTask) : Prop :=
  ∃ phase, (phase, .work task) ∈
    (rdmaScript network world rank (all rank)).take (state.pos rank)

/-- A send proxy has begun to run, in the thread of the engine or in one of its own. -/
def Sends (network : Network n) (world : RdmaWorld n) (all : Fin n → List PendingRdma)
    (state : State (Fin n) (Port n) UInt8) (rank : Fin n) (item : PendingRdma) : Prop :=
  Did network world all state rank .startEngine ∨ Did network world all state rank (.start item)

/-- Two proxies that point at each other. -/
structure Facing (world : RdmaWorld n) (edge : Fin n) (channel : ℕ)
    (sender receiver' : RdmaProxy) : Prop where
  ends : ∃ qp qp' targets remote, sender = .send qp targets ∧ receiver' = .recv qp' remote ∧
    qp.destQpNum = (world.receives edge channel).qpn ∧
    qp'.destQpNum = (world.sends edge channel).qpn ∧
    qp.dgid = (world.setups (receiver edge)).endpoint.gid ∧
    qp'.dgid = (world.setups edge).endpoint.gid ∧
    qp.pathMtu = qp'.pathMtu ∧ qp.sqPsn = qp'.rqPsn ∧ qp'.sqPsn = qp.rqPsn
  sendRecv : (world.setups edge).plane = .sendRecv →
    ∃ qp qp', sender = .send qp none ∧ receiver' = .recv qp' none
  /-- The sender writes into the receiver's FIFO, and the receiver into the sender's CTS slots. -/
  writeCts : (world.setups edge).plane = .writeCts → ∃ qp qp',
    sender = .send qp (some
      { remoteFifoAddr := (world.receives edge channel).dataPtr
        remoteFifoRkey := (world.receives edge channel).fifoRkey
        remoteFifoBytes := .ofNat kFifoBytes
        localCts := (world.sends edge channel).ctsSlots
        ctsSlotCount := kFifoSteps }) ∧
    receiver' = .recv qp' (some
      { remoteCtsAddr := (world.sends edge channel).ctsSlots
        remoteCtsRkey := (world.sends edge channel).ctsRkey
        ctsSlotCount := kFifoSteps
        localShadow := (world.receives edge channel).ctsSlots
        localRecvFifoAddr := (world.receives edge channel).dataPtr
        localRecvFifoRkey := (world.receives edge channel).fifoRkey })

theorem pathMtu_comm (first second : UInt32) :
    (if first < second then first else second) = if second < first then second else first := by
  by_cases below : first < second
  · rw [if_pos below, if_neg (UInt32.lt_asymm below)]
  · by_cases above : second < first
    · rw [if_neg below, if_pos above]
    · rw [if_neg below, if_neg above]
      exact UInt32.le_antisymm (UInt32.not_lt.mp below) (UInt32.not_lt.mp above)

/-- The proxies that two ends make of each other's information. -/
theorem facing_of_compatible (compatible : Compatible (world.setups edge)
    (world.setups (receiver edge)) (world.sends edge channel) (world.receives edge channel)) :
    Facing world edge channel
      (proxyOf (world.setups edge) (world.sends edge channel) true
        (world.info (edge, channel, false)))
      (proxyOf (world.setups (receiver edge)) (world.receives edge channel) false
        (world.info (edge, channel, true))) := by
  have plane := compatible.plane
  have slots : (UInt32.ofNat kFifoSteps).toNat = kFifoSteps := by decide
  refine ⟨⟨_, _, _, _, rfl, rfl, rfl, rfl, rfl, rfl, pathMtu_comm _ _, rfl, rfl⟩, fun here => ?_,
    fun here => ?_⟩
  · refine ⟨connectedQp (world.setups edge) (world.info (edge, channel, false)),
      connectedQp (world.setups (receiver edge)) (world.info (edge, channel, true)), ?_, ?_⟩
    · simp [proxyOf, RdmaSetup.writeCts, here]
    · simp [proxyOf, RdmaSetup.writeCts, ← plane, here]
  · refine ⟨connectedQp (world.setups edge) (world.info (edge, channel, false)),
      connectedQp (world.setups (receiver edge)) (world.info (edge, channel, true)), ?_, ?_⟩
    · simp [proxyOf, RdmaSetup.writeCts, here, writeTargets, RdmaWorld.info, RdmaWorld.resources,
        portOwner, localInfo, ← plane]
    · simp [proxyOf, RdmaSetup.writeCts, here, ctsRemote, RdmaWorld.info, RdmaWorld.resources,
        portOwner, localInfo, ← plane, slots]

section Runs

variable (collected : ∀ rank, Collected network rank (all rank))
include collected

/-- A task that lets a send proxy run stands in the last phase. -/
theorem phase_of_starts {item : PendingRdma} (role : item.isSend = true) {phase : ℕ}
    {task : RdmaTask}
    (starts : task = .startEngine ∨ task = .start item)
    (inside : (phase, .work task) ∈ rdmaScript network world rank (all rank)) : phase = 6 := by
  obtain ⟨k, here⟩ := List.mem_iff_getElem?.mp inside
  rcases task_cases 0 collected here with ⟨other, -, same, -⟩ |
    ⟨other, -, same, -⟩ | ⟨other, -, receives, same, -⟩ | ⟨-, last⟩
  · rcases starts with rfl | rfl <;> cases same
  · rcases starts with rfl | rfl <;> cases same
  · unfold prepareRecv at same
    split at same
    · rcases starts with rfl | rfl <;> cases same
    · rcases starts with rfl | rfl
      · cases same
      · obtain rfl := RdmaTask.start.inj same
        cases role.symm.trans receives
  · exact last

/-- A rank that is in its last phase has its neighbours behind their receive proxies. -/
theorem neighbour_ready {state : State (Fin n) (Port n) UInt8}
    (room : peerInfoBytes + 1 ≤ capacity)
    (inv : (rdmaNet network world all capacity).Inv state) {item : PendingRdma}
    (member : item ∈ all rank) {task : RdmaTask}
    (last : (6, .work task) ∈ (rdmaNet network world all capacity).past state rank) :
    (∀ later ∈ (rdmaNet network world all capacity).todo state rank, 6 ≤ later.1) ∧
      ∀ later ∈ (rdmaNet network world all capacity).todo state
        (portOwner (portPeer (item.port network))), 4 ≤ later.1 := by
  have paired : (rdmaNet network world all capacity).Paired := rdmaNet_paired collected room
  have behind : ∀ later ∈ (rdmaNet network world all capacity).todo state rank, 6 ≤ later.1 :=
    fun later left => paired.le_of_past last left
  refine ⟨behind, ?_⟩
  have owner := portOwner_of_mem collected member
  have held : item.port network ∈
      (all (portOwner (item.port network))).map (PendingRdma.port network) := by
    rw [owner]
    exact List.mem_map_of_mem member
  have gets : getsAt (item.port network) (rdmaScript network world rank (all rank)) =
      List.replicate peerInfoBytes 1 ++ [5] :=
    getsAt_rdmaScript (collected rank) (List.mem_map_of_mem member)
  -- The rank has left no bytes to receive.
  have none_left : getsAt (item.port network)
      ((rdmaNet network world all capacity).todo state rank) = [] := by
    refine List.eq_nil_iff_forall_not_mem.mpr fun phase left => ?_
    have above := behind _ (mem_getsAt.mp left)
    have inside : phase ∈ getsAt (item.port network) (rdmaScript network world rank (all rank)) :=
      mem_getsAt.mpr (List.mem_of_mem_drop (mem_getsAt.mp left))
    rw [gets] at inside
    rcases List.mem_append.mp inside with info | ready
    · have one := (List.mem_replicate.mp info).2
      omega
    · have five := List.mem_singleton.mp ready
      omega
  have got : peerInfoBytes < (getsAt (item.port network)
      ((rdmaNet network world all capacity).past state
        ((rdmaNet network world all capacity).owner (item.port network)))).length := by
    have whole : (rdmaNet network world all capacity).past state rank ++
        (rdmaNet network world all capacity).todo state rank =
          rdmaScript network world rank (all rank) := Net.past_append_todo state rank
    rw [← whole, getsAt_append, none_left, List.append_nil] at gets
    change peerInfoBytes < (getsAt (item.port network)
      ((rdmaNet network world all capacity).past state (portOwner (item.port network)))).length
    rw [owner, gets]
    simp
  have puts : (putsAt (portPeer (item.port network)) (rdmaScript network world
      (portOwner (portPeer (item.port network)))
        (all (portOwner (portPeer (item.port network))))))[peerInfoBytes]? =
      some (4, readyByte) := by
    rw [putsAt_rdmaScript (collected _) ((mem_peer_iff collected _).mpr held),
      List.getElem?_append_right (by simp)]
    simp
  exact inv.behind paired got puts

/-- A task that is done has succeeded. -/
theorem acceptsAt_of_did {state : State (Fin n) (Port n) UInt8}
    (succeeded : (rdmaNet network world all capacity).Succeeded state) {item : PendingRdma}
    (behind : (2, .work (.connect item)) ∈ (rdmaNet network world all capacity).past state rank) :
    AcceptsAt world (item.port network) := by
  obtain ⟨k, before, here⟩ := Net.exists_index_of_past behind
  exact (rdmaAccepts_iff collected here).mp (succeeded rank k 2 _ before here) item rfl

end Runs

/-- Over the connections of any bootstrap, with the setups of the ranks interleaved in any way and
failing anywhere: a send proxy runs only when the receive proxy at the other end of its TCP
connection is prepared, and the two of them, made from what their ends have told each other, point
at each other. -/
theorem rdma_sender_waits {boot : ConnectState n} (reachable : ConnectReachable network boot)
    (done : ∀ rank, (boot.members rank).pc = .done)
    (collects : ∀ rank, pendingRdma network rank (boot.members rank).connections = .ok (all rank))
    (room : peerInfoBytes + 1 ≤ capacity) {state : State (Fin n) (Port n) UInt8}
    (reach : (rdmaNet network world all capacity).Reachable state) {item : PendingRdma}
    (member : item ∈ all edge) (role : item.isSend = true)
    (sends : Sends network world all state edge item) :
    ∃ channel, item.port network = (edge, channel, true) ∧
      ∃ item' ∈ all (receiver edge), item'.port network = (edge, channel, false) ∧
        item'.connection.tcp = item.connection.tcp ∧
        Did network world all state (receiver edge)
          (prepareRecv world (receiver edge) item') ∧
        ∃ sender receiver',
          connectPeer (world.setups edge) (world.sends edge channel) item.isSend item.isRecv edge
            (world.info (edge, channel, false)) = .ok sender ∧
          connectPeer (world.setups (receiver edge)) (world.receives edge channel) item'.isSend
            item'.isRecv edge (world.info (edge, channel, true)) = .ok receiver' ∧
          Facing world edge channel sender receiver' := by
  have inv := reachable.inv
  have collected : ∀ rank, Collected network rank (all rank) :=
    fun rank => inv.collected done (collects rank)
  have paired : (rdmaNet network world all capacity).Paired := rdmaNet_paired collected room
  have held := reach.inv paired
  have succeeded := reach.succeeded paired
  obtain ⟨owner, rdma, channel_lt⟩ :=
    ((collected edge).mem _).mp (List.mem_map_of_mem member)
  obtain ⟨channel, port⟩ : ∃ channel, item.port network = (edge, channel, true) := by
    have at_edge : (item.port network).1 = edge := by
      simpa [portOwner, PendingRdma.port, role] using owner
    exact ⟨_, Prod.ext at_edge (Prod.ext rfl role)⟩
  rw [port] at rdma channel_lt
  obtain ⟨item', member', port'⟩ : ∃ item' ∈ all (receiver edge),
      item'.port network = (edge, channel, false) :=
        exists_item collected (edge, channel, false) rdma channel_lt
  have receives : item'.isSend = false := congrArg (fun port => port.2.2) port'
  obtain ⟨task, starts, phase, behind⟩ : ∃ task,
      (task = .startEngine ∨ task = .start item) ∧ Did network world all state edge task := by
    rcases sends with engine | own
    · exact ⟨_, .inl rfl, engine⟩
    · exact ⟨_, .inr rfl, own⟩
  obtain rfl := phase_of_starts collected role starts (List.mem_of_mem_take behind)
  obtain ⟨above, above'⟩ := neighbour_ready collected room held member behind
  have peer : portOwner (portPeer (item.port network)) = receiver edge := by
    rw [port]
    rfl
  rw [peer] at above'
  have connected : (2, .work (.connect item)) ∈
      (rdmaNet network world all capacity).past state edge :=
    Net.mem_past_of_lt (connect_mem_rdmaScript collected member) fun later left =>
      Nat.lt_of_lt_of_le (show 2 < 6 by decide) (above later left)
  have connected' : (2, .work (.connect item')) ∈
      (rdmaNet network world all capacity).past state (receiver edge) :=
    Net.mem_past_of_lt (connect_mem_rdmaScript collected member') fun later left =>
      Nat.lt_of_lt_of_le (show 2 < 4 by decide) (above' later left)
  have prepared : (3, .work (prepareRecv world (receiver edge) item')) ∈
      (rdmaNet network world all capacity).past state (receiver edge) :=
    Net.mem_past_of_lt (prepare_mem_rdmaScript collected member' receives) fun later left =>
      Nat.lt_of_lt_of_le (show 3 < 4 by decide) (above' later left)
  have accepts := acceptsAt_of_did collected succeeded connected
  have accepts' := acceptsAt_of_did collected succeeded connected'
  rw [port] at accepts
  rw [port'] at accepts'
  have recv := (collected edge).recv item member
  have recv' := (collected (receiver edge)).recv item' member'
  refine ⟨channel, port, item', member', port', ?_, ⟨3, prepared⟩, _, _, ?_, ?_,
    facing_of_compatible (acceptsAt_both_iff.mp ⟨accepts, accepts'⟩)⟩
  · exact inv.same_tcp (collects edge) (collects (receiver edge)) member member'
      (by rw [port, port', portPeer]; rfl)
  · rw [recv, role]
    exact connectPeer_eq_ok.mpr ⟨accepts, rfl⟩
  · rw [recv', receives]
    exact connectPeer_eq_ok.mpr ⟨accepts', rfl⟩

end Ready

/-! ### Two ranks with an RDMA edge -/

/-- Both ranks run the WriteCts plane on host memory. -/
def twoRanksWorld : RdmaWorld 2 where
  setups := fun _ => ⟨.writeCts, .hostPin, true, ⟨1, 3, 4, .replicate 16 7⟩⟩
  sends := fun _ _ => ⟨17, 4096, 21, 8192, 22⟩
  receives := fun _ _ => ⟨18, 12288, 23, 16384, 24⟩
  padding := fun _ => 0

theorem agree_twoRanks : Agree twoRanks twoRanksWorld := by
  intro edge channel _ _
  refine
    { plane := rfl, placement := rfl, source_mtu := ?_, destination_mtu := ?_, source_gid := ?_,
      destination_gid := ?_, send_data := ?_, recv_data := ?_, write := fun _ => ?_ }
  all_goals
    simp only [twoRanksWorld]
    decide

/-- What the bootstrap leaves to the two ranks, and a run that sets both of them up. -/
theorem exists_setup_twoRanks : ∃ (boot : ConnectState 2) (all : Fin 2 → List PendingRdma)
    (labels : List (Label (Fin 2))) (state : State (Fin 2) (Port 2) UInt8),
    ConnectReachable twoRanks boot ∧ (∀ rank, (boot.members rank).pc = .done) ∧
      (∀ rank, pendingRdma twoRanks rank (boot.members rank).connections = .ok (all rank)) ∧
      exec (rdmaNet twoRanks twoRanksWorld all 73).step initial labels = some state ∧
      (∀ rank, .error rank ∉ labels) ∧
      ∀ rank, state.pos rank = (rdmaScript twoRanks twoRanksWorld rank (all rank)).length := by
  obtain ⟨boot, execution, done, -⟩ := exists_twoRanks
  have reachable : ConnectReachable twoRanks boot := ⟨_, execution⟩
  have collects : ∀ rank, ∃ items,
      pendingRdma twoRanks rank (boot.members rank).connections = .ok items :=
    fun rank => ⟨_, pendingRdma_eq fun c inside => reachable.inv.isEdge inside⟩
  obtain ⟨all, collects⟩ := Classical.axiomOfChoice collects
  have collected : ∀ rank, Collected twoRanks rank (all rank) :=
    fun rank => reachable.inv.collected done (collects rank)
  have paired : (rdmaNet twoRanks twoRanksWorld all 73).Paired :=
    rdmaNet_paired collected (by decide)
  obtain ⟨labels, state, run, no_error, ended⟩ :=
    Net.exists_ended paired ((accepting_iff collected).mpr agree_twoRanks) Net.inv_initial
      fun _ => rfl
  exact ⟨boot, all, labels, state, reachable, done, collects, run, no_error, ended⟩

theorem rdma_sender_waits_twoRanks : ∃ (all : Fin 2 → List PendingRdma)
    (state : State (Fin 2) (Port 2) UInt8) (item : PendingRdma),
    (rdmaNet twoRanks twoRanksWorld all 73).Reachable state ∧
      Sends twoRanks twoRanksWorld all state 0 item ∧
        ∃ channel sender receiver', item.port twoRanks = (0, channel, true) ∧
          Facing twoRanksWorld 0 channel sender receiver' := by
  obtain ⟨boot, all, labels, state, reachable, done, collects, run, -, ended⟩ :=
    exists_setup_twoRanks
  have collected : ∀ rank, Collected twoRanks rank (all rank) :=
    fun rank => reachable.inv.collected done (collects rank)
  obtain ⟨item, member, port⟩ : ∃ item ∈ all 0, item.port twoRanks = (0, 0, true) :=
    exists_item collected (0, 0, true) (by decide) (by decide)
  have role : item.isSend = true := congrArg (fun port => port.2.2) port
  have sends : Sends twoRanks twoRanksWorld all state 0 item := by
    refine .inl ⟨6, ?_⟩
    rw [ended 0, List.take_length, rdmaScript_of_mem (collected 0) (List.mem_map_of_mem member)]
    refine mem_ofPhases.mpr ⟨6, _, rfl, rfl, ?_⟩
    simp [startSends, twoRanksWorld]
  obtain ⟨channel, named, -, -, -, -, -, sender, receiver', -, -, facing⟩ :=
    rdma_sender_waits reachable done collects (by decide) ⟨labels, run⟩ member role sends
  exact ⟨all, state, item, ⟨labels, run⟩, sends, channel, sender, receiver', named, facing⟩

end Bootstrap
end NanoNccl
