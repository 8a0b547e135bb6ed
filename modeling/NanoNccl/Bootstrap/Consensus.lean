import Mathlib.Algebra.GroupWithZero.Nat
import Mathlib.Tactic.FinCases
import NanoNccl.Bootstrap.Setup

/-!
# Failures of the setup

Every stage of the setup turns the failures of its local calls into a vote, so that all ranks go on
or all throw. The exceptions are the calls of `cudaSetDevice` at the heads of
`probe_mpi_p2p_edges` and `create_mpi_p2p_connections`: a rank on which one fails throws at once and
leaves its peers in the collective that follows.
-/

namespace NanoNccl
namespace Bootstrap

open Spmd

variable {n : ℕ}

/-! ### Aligning the stages -/

section

variable {α β : Type} {rest : Fin n → α → Setup n β} {stage : Stage} {site : Site}

theorem aligned_allgather (root : Fin n) {values : Fin n → Value}
    {rest : Fin n → (Fin n → Value) → Setup n β} :
    (Aligned fun rank => allgather site (values rank) >>= rest rank) ↔
      Aligned fun rank => rest rank values :=
  aligned_collective root

theorem aligned_allreduceMin (root : Fin n) {numbers : Fin n → ℕ} {rest : Fin n → ℕ → Setup n β} :
    (Aligned fun rank => allreduceMin site (numbers rank) >>= rest rank) ↔
      Aligned fun rank => rest rank (minimum numbers) :=
  aligned_collective root

theorem aligned_barrier (root : Fin n) {rest : Fin n → Unit → Setup n β} :
    (Aligned fun rank => barrier site >>= rest rank) ↔ Aligned fun rank => rest rank () :=
  aligned_collective root

/-- A computation that all ranks share succeeds or fails on all of them. -/
theorem aligned_shared {outcome : Except String α} :
    (Aligned fun rank => shared stage outcome >>= rest rank) ↔
      ∀ value, outcome = .ok value → Aligned fun rank => rest rank value := by
  cases outcome with
  | ok value =>
      refine ⟨fun aligned _ same => Except.ok.inj same ▸ aligned, fun all => all value rfl⟩
  | error message =>
      refine ⟨fun _ value same => ?_, fun _ => ?_⟩
      · cases same
      · exact aligned_throw stage fun _ => message

theorem localOk_eq_zero {outcome : Except String α} :
    localOk outcome = 0 ↔ outcome.isOk = false := by
  cases outcome <;> simp [localOk, Except.isOk, Except.toBool]

/-- The minimum of the votes is 0 when some rank voted 0. -/
theorem minimum_eq_zero {numbers : Fin n → ℕ} (root : Fin n) :
    minimum numbers = 0 ↔ ∃ rank, numbers rank = 0 := by
  unfold minimum
  cases smallest : (List.ofFn numbers).min? with
  | none =>
      have empty : n = 0 := by simpa [List.min?_eq_none_iff] using smallest
      exact absurd root.pos (by omega)
  | some least =>
      obtain ⟨member, below⟩ := List.min?_eq_some_iff.mp smallest
      obtain ⟨rank, rfl⟩ := List.mem_ofFn.mp member
      refine ⟨fun zero => ⟨rank, zero⟩, ?_⟩
      rintro ⟨peer, zero⟩
      have least_le := below _ (List.mem_ofFn.mpr ⟨peer, rfl⟩)
      rw [zero] at least_le
      exact Nat.le_zero.mp least_le

theorem minimum_localOk {outcomes : Fin n → Except String α} (root : Fin n) :
    minimum (fun rank => localOk (outcomes rank)) = 0 ↔ ¬ ∀ rank, (outcomes rank).isOk = true := by
  simp [minimum_eq_zero root, localOk_eq_zero]

/-- A vote lets all ranks go on, or makes all throw. -/
theorem aligned_consensus (root : Fin n) {vote errors : Site} {bufferBytes : ℕ}
    {message : (Fin n → String) → String} {outcomes : Fin n → Except String α}
    {rest : Fin n → Unit → Setup n β} :
    (Aligned fun rank =>
        consensus vote errors stage bufferBytes message (outcomes rank) >>= rest rank) ↔
      ((∀ rank, (outcomes rank).isOk = true) → Aligned fun rank => rest rank ()) := by
  have split : (fun rank =>
      consensus vote errors stage bufferBytes message (outcomes rank) >>= rest rank) =
      fun rank => allreduceMin vote (localOk (outcomes rank)) >>= fun allOk =>
        (if allOk = 0 then
          allgather errors (.text (localError bufferBytes (outcomes rank))) >>= fun gathered =>
            .throw stage (message fun rank => (gathered rank).toText)
        else pure ()) >>= rest rank := rfl
  rw [split, aligned_allreduceMin root]
  by_cases allOk : ∀ rank, (outcomes rank).isOk = true
  · have passed : minimum (fun rank => localOk (outcomes rank)) ≠ 0 := by
      rw [Ne, minimum_localOk root, not_not]
      exact allOk
    simp only [if_neg passed, Program.pure_eq, Program.done_bind, allOk, implies_true, forall_const]
  · have failed : minimum (fun rank => localOk (outcomes rank)) = 0 :=
      (minimum_localOk root).mpr allOk
    simp only [if_pos failed, allOk, false_implies, iff_true]
    exact (aligned_allgather root).mpr (aligned_throw stage _)

/-- A local call outside of any vote, before a collective, has to have the same outcome on all
ranks. -/
theorem aligned_unvoted {outcomes : Fin n → Except String Unit} {rest : Fin n → Unit → Setup n β}
    (values : Fin n → Value) {next : Fin n → (Fin n → Value) → Setup n β}
    (collective : ∀ rank, rest rank () = .collective site (values rank) (next rank)) :
    (Aligned fun rank => shared stage (outcomes rank) >>= rest rank) ↔
      (∀ rank peer, (outcomes rank).isOk = (outcomes peer).isOk) ∧
        ((∀ rank, (outcomes rank).isOk = true) → Aligned fun rank => rest rank ()) := by
  have program_ok : ∀ rank, (outcomes rank).isOk = true →
      (shared stage (outcomes rank) >>= rest rank) = rest rank () := by
    intro rank passed
    cases at_rank : outcomes rank with
    | ok value => rfl
    | error message => simp [at_rank, Except.isOk, Except.toBool] at passed
  have program_error : ∀ rank, (outcomes rank).isOk = false →
      ∃ message, (shared stage (outcomes rank) >>= rest rank) = .throw stage message := by
    intro rank failed
    cases at_rank : outcomes rank with
    | ok value => simp [at_rank, Except.isOk, Except.toBool] at failed
    | error message => exact ⟨message, rfl⟩
  constructor
  · intro aligned
    have agree : ∀ rank peer, (outcomes rank).isOk = true → (outcomes peer).isOk = true := by
      intro rank peer passed
      by_contra failed
      obtain ⟨message, thrown⟩ := program_error peer (Bool.eq_false_iff.mpr failed)
      exact not_aligned_of_throw thrown ((program_ok rank passed).trans (collective rank)) aligned
    refine ⟨fun rank peer => Bool.eq_iff_iff.mpr ⟨agree rank peer, agree peer rank⟩, ?_⟩
    intro all
    exact (funext fun rank => program_ok rank (all rank)) ▸ aligned
  · rintro ⟨agree, passed⟩
    by_cases all : ∀ rank, (outcomes rank).isOk = true
    · rw [funext fun rank => program_ok rank (all rank)]
      exact passed all
    · obtain ⟨failing, failed⟩ := not_forall.mp all
      have thrown : ∀ rank, ∃ message,
          (shared stage (outcomes rank) >>= rest rank) = .throw stage message := fun rank =>
        program_error rank ((agree rank failing).trans (Bool.eq_false_iff.mpr failed))
      exact .uniform (.inr ⟨stage, thrown⟩)

theorem aligned_validateLocalDevice (root : Fin n) {device : Fin n → ℤ} {calls : Fin n → LocalCalls}
    {rest : Fin n → Unit → Setup n β} :
    (Aligned fun rank =>
        validateLocalDeviceWithConsensus rank (device rank) (calls rank) >>= rest rank) ↔
      ((∀ rank, (checkLocalDevice rank (device rank) (calls rank)).isOk = true) →
        Aligned fun rank => rest rank ()) :=
  aligned_consensus root

theorem aligned_discoverNodeIds (root : Fin n) {nodeId : Fin n → ℤ}
    {rest : Fin n → (Fin n → ℤ) → Setup n β} :
    (Aligned fun rank => discoverNodeIds (nodeId rank) >>= rest rank) ↔
      Aligned fun rank => rest rank nodeId :=
  (aligned_collective root).trans (aligned_collective root)

theorem aligned_validateUniqueDevice (root : Fin n) {nodeIds : Fin n → ℤ}
    {calls : Fin n → LocalCalls} {rest : Fin n → Unit → Setup n β} :
    (Aligned fun rank => validateUniqueDevicePerNode rank nodeIds (calls rank) >>= rest rank) ↔
      ((∀ rank, (identifyDevice rank (calls rank)).isOk = true) →
        sharedDevice nodeIds (fun rank => (identifyDevice rank (calls rank)).toOption.getD 0) =
          none → Aligned fun rank => rest rank ()) := by
  simp only [validateUniqueDevicePerNode, Program.bind_assoc]
  rw [aligned_consensus root]
  refine imp_congr_right fun _ => ?_
  rw [aligned_allgather root]
  simp only [Value.toBlock]
  cases sharedDevice nodeIds fun rank => (identifyDevice rank (calls rank)).toOption.getD 0 with
  | some pair => simpa using aligned_throw Stage.uniqueDevice _
  | none => simp

/-- The probe asks that its `cudaSetDevice` has one outcome. -/
theorem aligned_probe (root : Fin n) {nodeIds : Fin n → ℤ} {calls : Fin n → LocalCalls}
    {rest : Fin n → (Fin n → Bool) → Setup n β} :
    (Aligned fun rank => probeMpiP2pEdges rank nodeIds (calls rank) >>= rest rank) ↔
      (∀ rank peer, ((calls rank).cudaSetDevice .probe).isOk =
        ((calls peer).cudaSetDevice .probe).isOk) ∧
      ((∀ rank, ((calls rank).cudaSetDevice .probe).isOk = true) → Aligned fun rank =>
        rest rank fun edge =>
          probeEdge edge nodeIds (fun peer => localOk (exportProbe (calls peer)))
            (calls edge)) := by
  have checked : ∀ rank, (cudaCheckThrow ((calls rank).cudaSetDevice .probe)).isOk =
      ((calls rank).cudaSetDevice .probe).isOk := by
    intro rank
    cases (calls rank).cudaSetDevice .probe <;> rfl
  simp only [probeMpiP2pEdges, Program.bind_assoc]
  rw [aligned_unvoted (fun rank => .block ((exportProbe (calls rank)).toOption.getD 0))
    (fun _ => rfl)]
  simp only [checked]
  refine and_congr_right fun _ => imp_congr_right fun _ => ?_
  rw [aligned_allgather root, aligned_allgather root, aligned_barrier root, aligned_allgather root]
  simp only [Value.toInt, Program.pure_eq, Program.done_bind]
  refine Iff.of_eq (congrArg (fun capable : Fin n → Bool => Aligned fun rank => rest rank capable)
    (funext fun edge => ?_))
  have sent : ∀ flag : Bool, decide ((if flag = true then 1 else 0) ≠ 0) = flag := by decide
  exact sent _

/-- Both `try` blocks of `create_mpi_shm_connections` succeed on all ranks, if there is an SHM
edge. -/
def ShmCreated (edgeKinds : Fin n → TransportKind) (calls : Fin n → LocalCalls) : Prop :=
  (∃ edge, edgeKinds edge = .shm) →
    (∀ rank, (createIncomingRegion rank edgeKinds (calls rank)).isOk = true) ∧
    ∀ rank, (mapRegions rank edgeKinds
      (fun peer => (createIncomingRegion peer edgeKinds (calls peer)).toOption.getD "")
      (calls rank)).isOk = true

theorem aligned_createMpiShm (root : Fin n) {edgeKinds : Fin n → TransportKind}
    {calls : Fin n → LocalCalls} {rest : Fin n → Unit → Setup n β} :
    (Aligned fun rank => createMpiShmConnections rank edgeKinds (calls rank) >>= rest rank) ↔
      (ShmCreated edgeKinds calls → Aligned fun rank => rest rank ()) := by
  unfold ShmCreated
  by_cases used : ∃ edge, edgeKinds edge = .shm
  · simp only [createMpiShmConnections, if_pos used, Program.bind_assoc]
    simp only [used, forall_const, and_imp]
    rw [aligned_consensus root]
    refine imp_congr_right fun _ => ?_
    rw [aligned_allgather root]
    simp only [Value.toText]
    rw [aligned_consensus root]
    exact imp_congr_right fun _ => aligned_barrier root
  · simp only [createMpiShmConnections, used, if_false, false_implies, forall_const]
    rfl

/-- With P2P edges, `create_mpi_p2p_connections` asks that its `cudaSetDevice` has one outcome. -/
theorem aligned_createMpiP2p (root : Fin n) {edgeKinds : Fin n → TransportKind}
    {calls : Fin n → LocalCalls} {rest : Fin n → Unit → Setup n β}
    (later : Aligned fun rank => rest rank ()) :
    (Aligned fun rank => createMpiP2pConnections rank edgeKinds (calls rank) >>= rest rank) ↔
      ((∃ edge, edgeKinds edge = .p2p) → ∀ rank peer,
        ((calls rank).cudaSetDevice .p2p).isOk = ((calls peer).cudaSetDevice .p2p).isOk) := by
  by_cases used : ∃ edge, edgeKinds edge = .p2p
  · have checked : ∀ rank, (cudaCheckThrow ((calls rank).cudaSetDevice .p2p)).isOk =
        ((calls rank).cudaSetDevice .p2p).isOk := by
      intro rank
      cases (calls rank).cudaSetDevice .p2p <;> rfl
    simp only [createMpiP2pConnections, if_pos used, Program.bind_assoc]
    simp only [used, forall_const]
    rw [aligned_unvoted (fun rank => .block
      ((exportIncomingRegion rank edgeKinds (calls rank)).toOption.getD (0, "")).1)
      (fun _ => rfl)]
    simp only [checked]
    refine and_iff_left fun _ => ?_
    rw [aligned_allgather root, aligned_allgather root, aligned_consensus root]
    intro _
    rw [aligned_allreduceMin root, aligned_allgather root]
    split_ifs
    · simp only [Program.bind_assoc]
      rw [aligned_allgather root]
      exact aligned_throw Stage.p2p _
    · exact (aligned_barrier root).mpr later
  · simp only [createMpiP2pConnections, used, if_false, false_implies, iff_true]
    exact later

/-- The listener never leaves a rank behind. -/
theorem aligned_listenIfNeeded (root : Fin n) {edgeKinds : Fin n → TransportKind}
    {calls : Fin n → LocalCalls} {rest : Fin n → ℕ × ℕ → Setup n β}
    (later : ∀ listeners : Fin n → ℕ × ℕ, Aligned fun rank => rest rank (listeners rank)) :
    Aligned fun rank => listenIfNeeded edgeKinds (calls rank) >>= rest rank := by
  by_cases network : usesNetwork edgeKinds
  · simp only [listenIfNeeded, if_pos network, createListenerWithConsensus, Program.bind_assoc]
    rw [aligned_consensus root]
    exact fun _ => later _
  · simp only [listenIfNeeded, if_neg network]
    exact later _

end

/-! ### The whole setup -/

/-- Devices are valid, identified, and not shared on a node. -/
def World.Identified (world : World n) : Prop :=
  (∀ rank, (checkLocalDevice rank (world.device rank) (world.calls rank)).isOk = true) ∧
  (∀ rank, (identifyDevice rank (world.calls rank)).isOk = true) ∧
  sharedDevice world.nodeId
    (fun rank => (identifyDevice rank (world.calls rank)).toOption.getD 0) = none

/-- The edges the probe finds capable, if there is one. -/
def World.p2pCapable (world : World n) (edge : Fin n) : Bool :=
  world.transport.probes && probeEdge edge world.nodeId
    (fun peer => localOk (exportProbe (world.calls peer))) (world.calls edge)

/-- The kinds of the edges. -/
def World.edgeKinds (world : World n) : Except String (Fin n → TransportKind) :=
  resolveInterprocessTransports world.rdmaEnabled world.transport world.nodeId world.p2pCapable

/-- `cudaSetDevice` succeeds on all ranks or fails on all ranks. -/
def World.SameSetDevice (world : World n) (place : SetDevicePlace) : Prop :=
  ∀ rank peer, ((world.calls rank).cudaSetDevice place).isOk =
    ((world.calls peer).cudaSetDevice place).isOk

/-- The two calls of `cudaSetDevice` outside of a vote have one outcome on all ranks, as far as the
setup comes to them. -/
def World.SetDeviceAgrees (world : World n) : Prop :=
  world.Identified →
    (world.transport.probes = true → world.SameSetDevice .probe) ∧
    ((world.transport.probes = true →
        ∀ rank, ((world.calls rank).cudaSetDevice .probe).isOk = true) →
      ∀ edgeKinds, world.edgeKinds = .ok edgeKinds → ShmCreated edgeKinds world.calls →
        (∃ edge, edgeKinds edge = .p2p) → world.SameSetDevice .p2p)

/-- The probe, if there is one, asks that its `cudaSetDevice` has one outcome. -/
theorem aligned_probeIfNeeded (root : Fin n) {β : Type} (world : World n)
    {rest : Fin n → (Fin n → Bool) → Setup n β} :
    (Aligned fun rank =>
        probeIfNeeded world.transport rank world.nodeId (world.calls rank) >>= rest rank) ↔
      (world.transport.probes = true → world.SameSetDevice .probe) ∧
      ((world.transport.probes = true →
          ∀ rank, ((world.calls rank).cudaSetDevice .probe).isOk = true) →
        Aligned fun rank => rest rank world.p2pCapable) := by
  unfold World.p2pCapable
  cases probes : world.transport.probes with
  | true =>
      simp only [probeIfNeeded, probes, if_true, forall_const, Bool.true_and]
      exact aligned_probe root
  | false => simp [probeIfNeeded, probes]

/-- The setup never leaves a rank behind exactly when the two calls of `cudaSetDevice` outside of a
vote have one outcome on all ranks. -/
theorem setup_lockstep_iff (world : World n) :
    Lockstep (createCommunicatorFromMpi world) ↔ world.SetDeviceAgrees := by
  have root : Fin n := ⟨0, by have := world.two_le; omega⟩
  rw [lockstep_iff_aligned root]
  unfold World.SetDeviceAgrees World.Identified createCommunicatorFromMpi
  simp only [and_imp]
  rw [aligned_validateLocalDevice root]
  refine imp_congr_right fun _ => ?_
  rw [aligned_discoverNodeIds root, aligned_validateUniqueDevice root]
  refine imp_congr_right fun _ => imp_congr_right fun _ => ?_
  rw [aligned_probeIfNeeded root]
  refine and_congr_right fun _ => imp_congr_right fun _ => ?_
  rw [aligned_shared]
  refine forall_congr' fun edgeKinds => imp_congr_right fun resolved => ?_
  rw [validateProcessTopology_resolve resolved, aligned_shared]
  simp only [forall_const]
  rw [aligned_createMpiShm root]
  refine imp_congr_right fun _ => aligned_createMpiP2p root ?_
  exact aligned_listenIfNeeded root fun listeners =>
    (aligned_allgather root).mpr (aligned_done _)

/-- Local calls that all succeed, on the device with this UUID. -/
def smoothCalls (uuid : ℕ) : LocalCalls where
  cudaSetDevice := fun _ => .ok ()
  cudaGetDeviceCount := .ok 8
  cudaGetDeviceProperties := .ok uuid
  probeMalloc := .ok ()
  probeGetMemHandle := .ok uuid
  probeOpen := .ok ()
  probeClose := .ok ()
  probeFree := .ok ()
  pid := uuid
  shmSequence := 0
  shmCreate := fun _ => .opened
  shmTruncate := .ok ()
  shmMapIncoming := .ok ()
  shmOpenPeer := .ok ()
  shmMapOutgoing := .ok ()
  registerIncoming := .ok ()
  registerOutgoing := .ok ()
  pointerIncoming := .ok ()
  pointerOutgoing := .ok ()
  cudaMalloc := .ok ()
  cudaMemset := .ok ()
  cudaIpcGetMemHandle := .ok uuid
  controlSequence := 0
  controlCreate := fun _ => .opened
  controlTruncate := .ok ()
  controlMap := .ok ()
  peerControlOpen := .ok ()
  peerControlMap := .ok ()
  cudaIpcOpenMemHandle := .ok ()
  interfaceName := some "eth0"
  getifaddrs := .ok [⟨"eth0", true, true, false, uuid⟩]
  socket := .ok ()
  setsockopt := .ok ()
  bind := .ok ()
  listen := .ok ()
  getsockname := .ok (4000 + uuid)

/-- Two ranks on one node; the `cudaSetDevice` of the probe fails on rank 0, and nothing else
fails. -/
def failedProbe {n : ℕ} [NeZero n] (two_le : 2 ≤ n) : World n where
  two_le := two_le
  rdmaEnabled := true
  transport := .auto
  device := fun rank => rank.val
  nodeId := fun _ => 0
  calls := fun rank =>
    { smoothCalls (rank.val + 1) with
      cudaSetDevice := fun place =>
        if rank = 0 ∧ place = .probe then .error "out of memory" else .ok () }

/-- Both ranks pass five collectives, and rank 1 enters the sixth. -/
def untilProbe {n : ℕ} [NeZero n] : List (Label n) :=
  (List.replicate 5 [.enter 0, .enter 1, .leave 0, .leave 1]).flatten ++ [.enter 1]

/-- Rank 0 throws in the probe, and rank 1 stays in a collective that rank 0 never enters. -/
theorem failedProbe_strands : ¬ Lockstep (createCommunicatorFromMpi (failedProbe (le_refl 2))) ∧
    ∃ state, StepSystem.Reachable Spmd.step
        (initial (createCommunicatorFromMpi (failedProbe (le_refl 2)))) state ∧
      (state 0).program.finished = true ∧ (state 1).program.finished = false ∧
      (state 0).sites ++ [.probeHandles] = (state 1).sites ∧
      ∀ label, Spmd.step state label = none := by
  have run : (StepSystem.exec Spmd.step
      (initial (createCommunicatorFromMpi (failedProbe (le_refl 2)))) untilProbe).map (fun state =>
        ((state 0).program.finished, (state 1).program.finished,
          decide ((state 0).sites ++ [.probeHandles] = (state 1).sites),
          ([.enter 0, .enter 1, .leave 0, .leave 1] : List (Label 2)).all fun label =>
            (Spmd.step state label).isNone)) =
      some (true, false, true, true) := by
    decide +kernel
  obtain ⟨state, execution, observed⟩ := Option.map_eq_some_iff.mp run
  simp only [Prod.mk.injEq, decide_eq_true_eq, List.all_cons, List.all_nil, Bool.and_true,
    Bool.and_eq_true, Option.isNone_iff_eq_none] at observed
  obtain ⟨thrown, waiting, sites, blocked⟩ := observed
  refine ⟨fun lockstep => ?_, state, ⟨untilProbe, execution⟩, thrown, waiting, sites, ?_⟩
  · have shorter := (lockstep.complete state ⟨untilProbe, execution⟩ 0 thrown 1).length_le
    rw [← sites, List.length_append, List.length_singleton] at shorter
    omega
  · intro label
    cases label with
    | enter rank =>
        fin_cases rank
        · exact blocked.1
        · exact blocked.2.1
    | leave rank =>
        fin_cases rank
        · exact blocked.2.2.1
        · exact blocked.2.2.2

end Bootstrap
end NanoNccl
