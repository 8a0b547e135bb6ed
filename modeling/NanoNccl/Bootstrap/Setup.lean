import NanoNccl.Bootstrap.Topology
import NanoNccl.Lib.Spmd

/-!
# Setting up a communicator

`create_communicator_from_mpi` up to the exchange of the socket endpoints, as a program that every
rank runs. All MPI calls succeed; the local CUDA and OS calls of each rank succeed or fail in any
pattern. Where an error text of CUDA or the OS is formatted, the model has any text.
-/

namespace NanoNccl
namespace Bootstrap

open Spmd

/-! ### Collectives -/

/-- The collectives on `control_comm`, by the operation named to `mpi_check`. -/
inductive Site
  /-- "MPI_Allreduce(local device validation)" -/
  | localDevice
  /-- "MPI_Allgather(local device validation errors)" -/
  | localDeviceErrors
  /-- "MPI_Comm_split_type(topology)" -/
  | splitTopology
  /-- "MPI_Allgather(node ids)" -/
  | nodeIds
  /-- "MPI_Allreduce(CUDA device identity)" -/
  | deviceIdentity
  /-- "MPI_Allgather(CUDA device identity errors)" -/
  | deviceIdentityErrors
  /-- "MPI_Allgather(CUDA device identities)" -/
  | deviceIdentities
  /-- "MPI_Allgather(CUDA IPC probe handles)" -/
  | probeHandles
  /-- "MPI_Allgather(CUDA IPC probe status)" -/
  | probeStatus
  /-- "MPI_Barrier(CUDA IPC probe)" -/
  | probeBarrier
  /-- "MPI_Allgather(CUDA IPC edge status)" -/
  | edgeStatus
  /-- "MPI_Allreduce(SHM creation)" -/
  | shmCreation
  /-- "MPI_Allgather(SHM errors)" -/
  | shmErrors
  /-- "MPI_Allgather(SHM names)" -/
  | shmNames
  /-- "MPI_Allreduce(SHM mapping)" -/
  | shmMapping
  /-- "MPI_Barrier(SHM initialize)" -/
  | shmBarrier
  /-- "MPI_Allgather(CUDA IPC handles)" -/
  | ipcHandles
  /-- "MPI_Allgather(CUDA IPC close controls)" -/
  | ipcControls
  /-- "MPI_Allreduce(CUDA IPC allocation)" -/
  | ipcAllocation
  /-- "MPI_Allgather(CUDA IPC errors)" -/
  | ipcErrors
  /-- "MPI_Allreduce(CUDA IPC mapping)" -/
  | ipcMapping
  /-- "MPI_Allgather(CUDA IPC opened edges)" -/
  | ipcOpenedEdges
  /-- "MPI_Barrier(CUDA IPC initialize)" -/
  | ipcBarrier
  /-- "MPI_Allreduce(socket listener setup)" -/
  | listener
  /-- "MPI_Allgather(socket listener setup errors)" -/
  | listenerErrors
  /-- "MPI_Allgather(socket endpoints)" -/
  | endpoints
  deriving DecidableEq, Repr

/-- What a rank contributes to a collective. -/
inductive Value
  /-- Nothing. -/
  | nothing
  /-- An `int` that is never negative. -/
  | int (value : ℕ)
  /-- A node id. -/
  | node (id : ℤ)
  /-- A C string. -/
  | text (content : String)
  /-- A memory handle or a device UUID; an unset one is 0. -/
  | block (bytes : ℕ)
  /-- A `SocketAddress`. -/
  | address (ipv4 port : ℕ)
  deriving DecidableEq, Repr

/-- The `int` received. -/
def Value.toInt : Value → ℕ
  | .int value => value
  | .nothing | .node _ | .text _ | .block _ | .address _ _ => 0

/-- The node id received. -/
def Value.toNode : Value → ℤ
  | .node id => id
  | .nothing | .int _ | .text _ | .block _ | .address _ _ => 0

/-- The text received. -/
def Value.toText : Value → String
  | .text content => content
  | .nothing | .int _ | .node _ | .block _ | .address _ _ => ""

/-- The bytes received. -/
def Value.toBlock : Value → ℕ
  | .block bytes => bytes
  | .nothing | .int _ | .node _ | .text _ | .address _ _ => 0

/-- The stages of `create_communicator_from_mpi` that can throw. -/
inductive Stage
  /-- `validate_local_device_with_consensus` -/
  | localDevice
  /-- `validate_unique_device_per_node` -/
  | uniqueDevice
  /-- `probe_mpi_p2p_edges` -/
  | probe
  /-- `resolve_interprocess_transports` -/
  | resolve
  /-- `validate_process_topology` -/
  | topology
  /-- `create_mpi_shm_connections` -/
  | shm
  /-- `create_mpi_p2p_connections` -/
  | p2p
  /-- `create_listener_with_consensus` -/
  | listener
  deriving DecidableEq, Repr

/-- A program of the setup. -/
abbrev Setup (n : ℕ) (α : Type) : Type := Program n Site Value Stage α

variable {n : ℕ}

/-- `MPI_Allgather` -/
def allgather (site : Site) (value : Value) : Setup n (Fin n → Value) :=
  .collective site value .done

/-- What `MPI_MIN` makes of everyone's numbers. -/
def minimum (numbers : Fin n → ℕ) : ℕ := (List.ofFn numbers).min?.getD 0

/-- `MPI_Allreduce` with `MPI_MIN` -/
def allreduceMin (site : Site) (number : ℕ) : Setup n ℕ :=
  .collective site (.int number) fun values => .done (minimum fun rank => (values rank).toInt)

/-- `MPI_Barrier` -/
def barrier (site : Site) : Setup n Unit := .collective site .nothing fun _ => .done ()

/-- Throw in a stage unless a computation that all ranks share has succeeded. -/
def shared {α : Type} (stage : Stage) : Except String α → Setup n α
  | .ok value => .done value
  | .error message => .throw stage message

/-- `local_ok` -/
def localOk {α : Type} : Except String α → ℕ
  | .ok _ => 1
  | .error _ => 0

/-- `local_error`, a C string in a buffer of this size; it is empty after a success. -/
def localError {α : Type} (bufferBytes : ℕ) : Except String α → String
  | .ok _ => ""
  | .error message => String.ofList (message.toList.take (bufferBytes - 1))

/-- The first error text that is not empty. -/
def firstError (errors : Fin n → String) : Option String :=
  (List.ofFn errors).find? fun error => error ≠ ""

/-- Vote on an outcome; unless it is a success on all ranks, gather the errors and throw. -/
def consensus {α : Type} (vote errors : Site) (stage : Stage) (bufferBytes : ℕ)
    (message : (Fin n → String) → String) (outcome : Except String α) : Setup n Unit := do
  let allOk ← allreduceMin vote (localOk outcome)
  if allOk = 0 then
    let gathered ← allgather errors (.text (localError bufferBytes outcome))
    .throw stage (message fun rank => (gathered rank).toText)

/-! ### Local calls -/

/-- Where `cudaSetDevice` is called. -/
inductive SetDevicePlace
  /-- In `validate_local_device_with_consensus`. -/
  | validation
  /-- At the head of `probe_mpi_p2p_edges`. -/
  | probe
  /-- Inside the mapping of `create_mpi_shm_connections`. -/
  | shm
  /-- At the head of `create_mpi_p2p_connections`. -/
  | p2p
  deriving DecidableEq, Repr

/-- Outcomes of `shm_open` with `O_CREAT | O_EXCL`. -/
inductive OpenResult
  /-- A new file. -/
  | opened
  /-- `EEXIST` -/
  | alreadyExists
  /-- Any other error. -/
  | failed (reason : String)
  deriving DecidableEq, Repr

/-- An entry of `getifaddrs`. -/
structure Interface where
  /-- `ifa_name` -/
  name : String
  /-- It has an address of `AF_INET`. -/
  inet : Bool
  /-- `IFF_UP` -/
  up : Bool
  /-- `IFF_LOOPBACK` -/
  loopback : Bool
  /-- The address. -/
  ipv4 : ℕ
  deriving DecidableEq, Repr

/-- What the local CUDA and OS calls of one rank return during the setup: a value or an error
text. -/
structure LocalCalls where
  cudaSetDevice : SetDevicePlace → Except String Unit
  cudaGetDeviceCount : Except String ℤ
  /-- The UUID among the properties. -/
  cudaGetDeviceProperties : Except String ℕ
  /-- `cudaMalloc` of the probe. -/
  probeMalloc : Except String Unit
  /-- `cudaIpcGetMemHandle` of the probe. -/
  probeGetMemHandle : Except String ℕ
  /-- `cudaIpcOpenMemHandle` of the probe. -/
  probeOpen : Except String Unit
  /-- `cudaIpcCloseMemHandle` of the probe. -/
  probeClose : Except String Unit
  /-- `cudaFree` of the probe. -/
  probeFree : Except String Unit
  /-- `getpid` -/
  pid : ℕ
  /-- `sequence` of `create_region_name`. -/
  shmSequence : ℕ
  /-- `shm_open` of `create_region_name`, by attempt. -/
  shmCreate : ℕ → OpenResult
  /-- `ftruncate(SHM)` -/
  shmTruncate : Except String Unit
  /-- `mmap(SHM)` of the incoming region. -/
  shmMapIncoming : Except String Unit
  /-- `shm_open(peer)` -/
  shmOpenPeer : Except String Unit
  /-- `mmap(SHM)` of the outgoing region. -/
  shmMapOutgoing : Except String Unit
  /-- `cudaHostRegister` of the incoming region. -/
  registerIncoming : Except String Unit
  /-- `cudaHostRegister` of the outgoing region. -/
  registerOutgoing : Except String Unit
  /-- `cudaHostGetDevicePointer` of the incoming region. -/
  pointerIncoming : Except String Unit
  /-- `cudaHostGetDevicePointer` of the outgoing region. -/
  pointerOutgoing : Except String Unit
  /-- `cudaMalloc` of the incoming region. -/
  cudaMalloc : Except String Unit
  cudaMemset : Except String Unit
  /-- `cudaIpcGetMemHandle` of the incoming region. -/
  cudaIpcGetMemHandle : Except String ℕ
  /-- `sequence` of `create_close_control`. -/
  controlSequence : ℕ
  /-- `shm_open` of `create_close_control`, by attempt. -/
  controlCreate : ℕ → OpenResult
  /-- `ftruncate(CUDA IPC control)` -/
  controlTruncate : Except String Unit
  /-- `mmap(CUDA IPC control)` -/
  controlMap : Except String Unit
  /-- `shm_open(CUDA IPC peer control)` -/
  peerControlOpen : Except String Unit
  /-- `mmap(CUDA IPC peer control)` -/
  peerControlMap : Except String Unit
  /-- `cudaIpcOpenMemHandle` of the outgoing region. -/
  cudaIpcOpenMemHandle : Except String Unit
  /-- `getenv("NANO_NCCL_SOCKET_IFNAME")` -/
  interfaceName : Option String
  getifaddrs : Except String (List Interface)
  socket : Except String Unit
  /-- `setsockopt(SO_REUSEADDR)` -/
  setsockopt : Except String Unit
  bind : Except String Unit
  listen : Except String Unit
  /-- The port `getsockname` reports. -/
  getsockname : Except String ℕ

/-- An OS call that throws its name and the error. -/
def named {α : Type} (operation : String) (call : Except String α) : Except String α :=
  call.mapError fun reason => operation ++ ": " ++ reason

/-- `CUDA_CHECK_THROW`; the file and line it adds are left out. -/
def cudaCheckThrow {α : Type} (call : Except String α) : Except String α :=
  call.mapError fun reason => "CUDA error: " ++ reason

/-- Create a file under the first free name: 32 attempts, counted from `attempt`. -/
def createUnique (name : ℕ → String) (create : ℕ → OpenResult) (operation exhausted : String) :
    ℕ → ℕ → Except String String
  | 0, _ => .error exhausted
  | left + 1, attempt =>
      match create attempt with
      | .opened => .ok (name attempt)
      | .alreadyExists => createUnique name create operation exhausted left (attempt + 1)
      | .failed reason => .error (operation ++ ": " ++ reason)

/-! ### Devices and nodes -/

/-- The local part of `validate_local_device_with_consensus`. -/
def checkLocalDevice (rank : Fin n) (device : ℤ) (calls : LocalCalls) : Except String Unit :=
  let name := "MPI rank " ++ toString rank.val
  match calls.cudaGetDeviceCount with
  | .error reason => .error (name ++ " cudaGetDeviceCount failed: " ++ reason)
  | .ok deviceCount =>
      if device < 0 ∨ deviceCount ≤ device then
        .error (name ++ " selected invalid CUDA device " ++ toString device ++
          " (visible device count=" ++ toString deviceCount ++ ")")
      else
        match calls.cudaSetDevice .validation with
        | .error reason => .error (name ++ " cudaSetDevice failed: " ++ reason)
        | .ok () => .ok ()

/-- `validate_local_device_with_consensus` -/
def validateLocalDeviceWithConsensus (rank : Fin n) (device : ℤ) (calls : LocalCalls) :
    Setup n Unit :=
  consensus .localDevice .localDeviceErrors .localDevice 256
    (fun errors => (firstError errors).getD "one-process-per-GPU device validation failed")
    (checkLocalDevice rank device calls)

/-- `discover_node_ids`: the rank learns its node id from the leader of its node, and the ids of
the others from them. -/
def discoverNodeIds (nodeId : ℤ) : Setup n (Fin n → ℤ) := do
  .collective .splitTopology .nothing fun _ => .done ()
  let nodeIds ← allgather .nodeIds (.node nodeId)
  return fun rank => (nodeIds rank).toNode

/-- Two ranks on one node with the same device, the first such pair. -/
def sharedDevice (nodeIds : Fin n → ℤ) (uuids : Fin n → ℕ) : Option (Fin n × Fin n) :=
  (List.finRange n).findSome? fun first =>
    ((List.finRange n).find? fun second =>
      first < second ∧ nodeIds first = nodeIds second ∧ uuids first = uuids second).map (first, ·)

/-- The local part of `validate_unique_device_per_node`. -/
def identifyDevice (rank : Fin n) (calls : LocalCalls) : Except String ℕ :=
  calls.cudaGetDeviceProperties.mapError fun reason =>
    "MPI rank " ++ toString rank.val ++ " cudaGetDeviceProperties failed: " ++ reason

/-- `validate_unique_device_per_node` -/
def validateUniqueDevicePerNode (rank : Fin n) (nodeIds : Fin n → ℤ) (calls : LocalCalls) :
    Setup n Unit := do
  consensus .deviceIdentity .deviceIdentityErrors .uniqueDevice 256
    (fun errors => (firstError errors).getD "CUDA device identity validation failed")
    (identifyDevice rank calls)
  let uuids ← allgather .deviceIdentities (.block ((identifyDevice rank calls).toOption.getD 0))
  match sharedDevice nodeIds fun rank => (uuids rank).toBlock with
  | some (first, second) =>
      .throw .uniqueDevice ("MPI ranks " ++ toString first.val ++ " and " ++ toString second.val ++
        " select the same CUDA device on one host")
  | none => return ()

/-! ### The P2P probe -/

/-- Export of the probe's own memory. -/
def exportProbe (calls : LocalCalls) : Except String ℕ := do
  calls.probeMalloc
  calls.probeGetMemHandle

/-- Whether the rank opened and closed its receiver's memory, when both have exported theirs. -/
def probeOutgoing (rank : Fin n) (nodeIds : Fin n → ℤ) (handleOk : Fin n → ℕ) (calls : LocalCalls) :
    Bool :=
  decide (nodeIds rank = nodeIds (receiver rank) ∧ localOk (exportProbe calls) ≠ 0 ∧
    handleOk (receiver rank) ≠ 0) && calls.probeOpen.isOk && calls.probeClose.isOk

/-- `outgoing_ok` at the end: memory that was allocated has also been freed. -/
def probeEdge (rank : Fin n) (nodeIds : Fin n → ℤ) (handleOk : Fin n → ℕ) (calls : LocalCalls) :
    Bool :=
  probeOutgoing rank nodeIds handleOk calls && (!calls.probeMalloc.isOk || calls.probeFree.isOk)

/-- `probe_mpi_p2p_edges`. Its `cudaSetDevice` is checked outside of any vote. -/
def probeMpiP2pEdges (rank : Fin n) (nodeIds : Fin n → ℤ) (calls : LocalCalls) :
    Setup n (Fin n → Bool) := do
  shared .probe (cudaCheckThrow (calls.cudaSetDevice .probe))
  let _ ← allgather .probeHandles (.block ((exportProbe calls).toOption.getD 0))
  let status ← allgather .probeStatus (.int (localOk (exportProbe calls)))
  barrier .probeBarrier
  let edges ← allgather .edgeStatus (.int
    (if probeEdge rank nodeIds (fun peer => (status peer).toInt) calls then 1 else 0))
  return fun edge => (edges edge).toInt ≠ 0

/-! ### Shared memory -/

/-- The first `try` block of `create_mpi_shm_connections`: the region the rank receives through,
with its name; an empty one without an incoming edge. -/
def createIncomingRegion (rank : Fin n) (edgeKinds : Fin n → TransportKind) (calls : LocalCalls) :
    Except String String :=
  if edgeKinds (incomingEdge rank) = .shm then
    (do
      let name ← createUnique
        (fun attempt => "/nano_nccl_" ++ toString calls.pid ++ "_" ++ toString rank.val ++ "_" ++
          toString (calls.shmSequence + attempt))
        calls.shmCreate "shm_open(create)" "could not allocate a unique SHM region name" 32 0
      named "ftruncate(SHM)" calls.shmTruncate
      named "mmap(SHM)" calls.shmMapIncoming
      return name).mapError fun reason =>
        "SHM incoming edge " ++ edgeName (incomingEdge rank) ++
          " creation failed at global rank " ++ toString rank.val ++ ": " ++ reason
  else .ok ""

/-- The second `try` block of `create_mpi_shm_connections`: the region the rank sends through is
mapped, and both are registered. -/
def mapRegions (rank : Fin n) (edgeKinds : Fin n → TransportKind) (names : Fin n → String)
    (calls : LocalCalls) : Except String Unit :=
  let hasIncoming := edgeKinds (incomingEdge rank) = .shm
  let hasOutgoing := edgeKinds rank = .shm
  (do
    if hasOutgoing then
      if names (receiver rank) = "" then
        throw "SHM receiver did not publish its Ring region"
      named "shm_open(peer)" calls.shmOpenPeer
      named "mmap(SHM)" calls.shmMapOutgoing
    cudaCheckThrow (calls.cudaSetDevice .shm)
    if hasIncoming then cudaCheckThrow calls.registerIncoming
    if hasOutgoing then cudaCheckThrow calls.registerOutgoing
    if hasIncoming then cudaCheckThrow calls.pointerIncoming
    if hasOutgoing then cudaCheckThrow calls.pointerOutgoing).mapError fun reason =>
      "SHM edge setup failed at global rank " ++ toString rank.val ++ " (incoming " ++
        edgeName (incomingEdge rank) ++ ", outgoing " ++ edgeName rank ++ "): " ++ reason

/-- `create_mpi_shm_connections` -/
def createMpiShmConnections (rank : Fin n) (edgeKinds : Fin n → TransportKind)
    (calls : LocalCalls) : Setup n Unit :=
  if ∃ edge, edgeKinds edge = .shm then do
    let region := createIncomingRegion rank edgeKinds calls
    consensus .shmCreation .shmErrors .shm 512
      (fun errors => "same-host SHM creation failed: " ++
        (firstError errors).getD "unknown SHM setup error") region
    let names ← allgather .shmNames (.text (region.toOption.getD ""))
    consensus .shmMapping .shmErrors .shm 512
      (fun errors => "same-host SHM CUDA mapping failed: " ++
        (firstError errors).getD "unknown SHM setup error")
      (mapRegions rank edgeKinds (fun peer => (names peer).toText) calls)
    barrier .shmBarrier
  else return ()

/-! ### CUDA IPC -/

/-- The first `try` block of `create_mpi_p2p_connections`: the handle of the region the rank
receives through and the name of its close control, empty without an incoming edge. -/
def exportIncomingRegion (rank : Fin n) (edgeKinds : Fin n → TransportKind) (calls : LocalCalls) :
    Except String (ℕ × String) :=
  if edgeKinds (incomingEdge rank) = .p2p then
    (do
      cudaCheckThrow calls.cudaMalloc
      cudaCheckThrow calls.cudaMemset
      let handle ← cudaCheckThrow calls.cudaIpcGetMemHandle
      let name ← createUnique
        (fun attempt => "/nano_nccl_ipc_" ++ toString calls.pid ++ "_" ++ toString rank.val ++
          "_" ++ toString (calls.controlSequence + attempt))
        calls.controlCreate "shm_open(CUDA IPC control)"
        "could not allocate a unique CUDA IPC control name" 32 0
      named "ftruncate(CUDA IPC control)" calls.controlTruncate
      named "mmap(CUDA IPC control)" calls.controlMap
      return (handle, name)).mapError fun reason =>
        "P2P incoming edge " ++ edgeName (incomingEdge rank) ++
          " allocation/export failed at global rank " ++ toString rank.val ++ ": " ++ reason
  else .ok (0, "")

/-- The second `try` block of `create_mpi_p2p_connections`: the region the rank sends through is
opened. -/
def openOutgoingRegion (rank : Fin n) (edgeKinds : Fin n → TransportKind)
    (controlNames : Fin n → String) (calls : LocalCalls) : Except String Unit :=
  if edgeKinds rank = .p2p then
    (do
      if controlNames (receiver rank) = "" then
        throw "CUDA IPC receiver did not publish close control"
      named "shm_open(CUDA IPC peer control)" calls.peerControlOpen
      named "mmap(CUDA IPC peer control)" calls.peerControlMap
      cudaCheckThrow calls.cudaIpcOpenMemHandle).mapError fun reason =>
        "P2P outgoing edge " ++ edgeName rank ++ " mapping failed at global rank " ++
          toString rank.val ++ ": " ++ reason
  else .ok ()

/-- `create_mpi_p2p_connections`. Its `cudaSetDevice` is checked outside of any vote. -/
def createMpiP2pConnections (rank : Fin n) (edgeKinds : Fin n → TransportKind)
    (calls : LocalCalls) : Setup n Unit :=
  if ∃ edge, edgeKinds edge = .p2p then do
    shared .p2p (cudaCheckThrow (calls.cudaSetDevice .p2p))
    let region := exportIncomingRegion rank edgeKinds calls
    let exported := region.toOption.getD (0, "")
    let _ ← allgather .ipcHandles (.block exported.1)
    let controls ← allgather .ipcControls (.text exported.2)
    consensus .ipcAllocation .ipcErrors .p2p 512
      (fun errors => "CUDA IPC FIFO allocation failed: " ++
        (firstError errors).getD "unknown CUDA IPC setup error") region
    let opened := openOutgoingRegion rank edgeKinds (fun peer => (controls peer).toText) calls
    let allOk ← allreduceMin .ipcMapping (localOk opened)
    let _ ← allgather .ipcOpenedEdges (.int
      (if edgeKinds rank = .p2p then localOk opened else 0))
    if allOk = 0 then
      let errors ← allgather .ipcErrors (.text (localError 512 opened))
      .throw .p2p ("CUDA IPC FIFO mapping failed: " ++
        (firstError fun peer => (errors peer).toText).getD "unknown CUDA IPC setup error")
    barrier .ipcBarrier
  else return ()

/-! ### The socket listener -/

/-- `select_interface_address` -/
def selectInterfaceAddress (calls : LocalCalls) : Except String ℕ := do
  let name := calls.interfaceName.getD ""
  if name = "" then throw "NANO_NCCL_SOCKET_IFNAME must be set"
  let interfaces ← named "getifaddrs" calls.getifaddrs
  match interfaces.filter fun entry =>
      decide (entry.name = name) && entry.inet && entry.up && !entry.loopback with
  | [selected] => return selected.ipv4
  | _ => throw "NANO_NCCL_SOCKET_IFNAME must identify exactly one usable IPv4 address"

/-- `SocketEndpoint::create_from_environment`: address and port of the listener. -/
def createFromEnvironment (calls : LocalCalls) : Except String (ℕ × ℕ) := do
  let address ← selectInterfaceAddress calls
  named "socket" calls.socket
  named "setsockopt(SO_REUSEADDR)" calls.setsockopt
  named "bind" calls.bind
  named "listen" calls.listen
  let port ← named "getsockname" calls.getsockname
  return (address, port)

/-- `create_listener_with_consensus` -/
def createListenerWithConsensus (calls : LocalCalls) : Setup n (ℕ × ℕ) := do
  let listener := createFromEnvironment calls
  consensus .listener .listenerErrors .listener 256
    (fun errors => "socket listener setup failed" ++
      (((List.finRange n).find? fun rank => errors rank ≠ "").elim "" fun rank =>
        " on MPI rank " ++ toString rank.val ++ ": " ++ errors rank))
    listener
  return listener.toOption.getD (0, 0)

/-! ### The whole setup -/

/-- What the ranks of a communicator bring along, and what befalls them. -/
structure World (n : ℕ) where
  two_le : 2 ≤ n
  /-- The build option `NANO_NCCL_ENABLE_RDMA`. -/
  rdmaEnabled : Bool
  /-- `config.transport`, the same on all ranks. -/
  transport : TransportKind
  /-- `config.device` -/
  device : Fin n → ℤ
  /-- The node each rank runs on. -/
  nodeId : Fin n → ℤ
  calls : Fin n → LocalCalls

/-- The transports that are probed for. -/
def TransportKind.probes : TransportKind → Bool
  | .auto | .p2p | .rdma => true
  | .shm | .socket | .mixed => false

/-- Some edge needs the socket bootstrap. -/
def usesNetwork (edgeKinds : Fin n → TransportKind) : Prop :=
  ∃ edge, edgeKinds edge = .socket ∨ edgeKinds edge = .rdma

instance (edgeKinds : Fin n → TransportKind) : Decidable (usesNetwork edgeKinds) :=
  inferInstanceAs (Decidable (∃ edge, edgeKinds edge = .socket ∨ edgeKinds edge = .rdma))

/-- The probe, for the transports that need it. -/
def probeIfNeeded (transport : TransportKind) (rank : Fin n) (nodeIds : Fin n → ℤ)
    (calls : LocalCalls) : Setup n (Fin n → Bool) :=
  if transport.probes then probeMpiP2pEdges rank nodeIds calls else pure fun _ => false

/-- The listener, for the topologies that need it. -/
def listenIfNeeded (edgeKinds : Fin n → TransportKind) (calls : LocalCalls) : Setup n (ℕ × ℕ) :=
  if usesNetwork edgeKinds then createListenerWithConsensus calls else pure (0, 0)

/-- `create_communicator_from_mpi` up to the exchange of the endpoints. -/
def createCommunicatorFromMpi (world : World n) (rank : Fin n) :
    Setup n ((Fin n → TransportKind) × (Fin n → Value)) := do
  let calls := world.calls rank
  validateLocalDeviceWithConsensus rank (world.device rank) calls
  let nodeIds ← discoverNodeIds (world.nodeId rank)
  validateUniqueDevicePerNode rank nodeIds calls
  let p2pCapable ← probeIfNeeded world.transport rank nodeIds calls
  let edgeKinds ← shared .resolve
    (resolveInterprocessTransports world.rdmaEnabled world.transport nodeIds p2pCapable)
  shared .topology (validateProcessTopology edgeKinds)
  createMpiShmConnections rank edgeKinds calls
  createMpiP2pConnections rank edgeKinds calls
  let localEndpoint ← listenIfNeeded edgeKinds calls
  let endpoints ← allgather .endpoints (.address localEndpoint.1 localEndpoint.2)
  return (edgeKinds, endpoints)

end Bootstrap
end NanoNccl
