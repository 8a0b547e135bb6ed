import NanoNccl.Lib.Custody
import NanoNccl.Rdma.PeerInfo

/-!
# Objects of a communicator and what they own

Host memory the devices map, verbs objects, registered memory and the resources of a channel, with
the calls that build them. Every call to CUDA, to verbs and to the OS may fail; allocations on the
heap succeed. A destructor releases what an object has, and it does not run for an object whose
constructor throws.
-/

namespace NanoNccl
namespace Communicator
namespace Objects

open Custody Throwing Rdma

/-- What a communicator acquires. -/
inductive Kind
  /-- `ibv_get_device_list` -/
  | deviceList
  /-- `ibv_open_device` -/
  | context
  /-- `ibv_alloc_pd` -/
  | pd
  /-- `ibv_create_cq` -/
  | cq
  /-- `ibv_create_qp` -/
  | qp
  /-- `ibv_reg_mr` and `ibv_reg_dmabuf_mr` -/
  | mr
  /-- File descriptor of `cuMemGetHandleForAddressRange`. -/
  | dmabuf
  /-- `cudaHostAlloc` -/
  | mapped
  /-- `cudaMalloc` -/
  | device
  /-- An array on the heap that is registered with verbs. -/
  | array
  /-- File descriptor of a TCP connection. -/
  | connection
  /-- What an SHM or a CUDA IPC connection owns. -/
  | owner
  /-- A proxy on the heap. -/
  | proxy
  /-- A thread that runs. -/
  | thread
  /-- Work on the device that has not completed. -/
  | launch
  deriving DecidableEq, Repr

/-- A resource. -/
abbrev Object := Handle Kind

/-! ### Host memory -/

/-- Calls of `MappedBuffer::reset`, `MappedU64Array::reset` and `MappedU32Array::reset`. -/
structure MappedCalls where
  cudaHostAlloc : Bool
  /-- `cudaSetDevice` and `cudaHostGetDevicePointer` -/
  devicePointers : Bool
  deriving DecidableEq, Repr

/-- Calls that allocate the memory give its addresses, too. -/
def MappedCalls.Complete (calls : MappedCalls) : Prop :=
  calls.cudaHostAlloc = true → calls.devicePointers = true

instance (calls : MappedCalls) : Decidable calls.Complete := inferInstanceAs (Decidable (_ → _))

variable {σ : Type}

/-- `MappedU64Array::reset` and `MappedU32Array::reset` -/
def resetMapped (calls : MappedCalls) : Procedure (Option Object) Kind Unit := do
  let state ← get
  release state.1.toList
  assign fun _ => none
  let memory ← acquire calls.cudaHostAlloc "CUDA error" .mapped []
  assign fun _ => some memory
  require calls.devicePointers "CUDA error"

/-- The constructor of `MappedBuffer`, which calls `reset`. -/
def newMappedBuffer (calls : MappedCalls) : Procedure σ Kind Object := do
  let memory ← acquire calls.cudaHostAlloc "CUDA error" .mapped []
  -- An exception from here on leaves the memory behind.
  require calls.devicePointers "CUDA error"
  return memory

/-! ### Verbs -/

/-- Calls for an HCA in `RdmaEndpoint::create_from_environment`. -/
structure DeviceCalls where
  ibvOpenDevice : Bool
  ibvQueryPort : Bool
  /-- `port_attr.state == IBV_PORT_ACTIVE` -/
  active : Bool
  /-- `iface_matches_hca` -/
  ifaceMatchesHca : Bool
  ibvQueryGid : Bool
  ibvAllocPd : Bool
  deriving DecidableEq, Repr

/-- The environment of `RdmaEndpoint::create_from_environment`. -/
structure EndpointCalls where
  /-- `parse_gid_index_env` -/
  parseGidIndexEnv : Bool
  /-- `NANO_NCCL_RDMA_IFNAME` is set and not empty. -/
  hasIfname : Bool
  ibvGetDeviceList : Bool
  devices : List DeviceCalls
  deriving DecidableEq, Repr

/-- `RdmaEndpoint` -/
structure RdmaEndpoint where
  context : Object
  pd : Object
  deriving DecidableEq, Repr

/-- What `~RdmaEndpoint` releases. -/
def RdmaEndpoint.custody (endpoint : RdmaEndpoint) : List Object := [endpoint.pd, endpoint.context]

/-- `ctx_guard` and `pd_guard` -/
structure Guards where
  ctx : Option Object
  pd : Option Object
  deriving DecidableEq, Repr

/-- What the destructors of the guards release. -/
def Guards.custody (guards : Guards) : List Object := guards.pd.toList ++ guards.ctx.toList

/-- One turn of the loop over the devices. -/
def tryDevice (list : Object) (calls : DeviceCalls) :
    Procedure (Guards × σ) Kind (Option RdmaEndpoint) := do
  useAll [list]
  match ← attempt calls.ibvOpenDevice .context [] with
  | none => return none
  | some ctx =>
      assign fun vars => ({ vars.1 with ctx := some ctx }, vars.2)
      if !calls.ibvQueryPort || !calls.active || !calls.ifaceMatchesHca then return none
      require calls.ibvQueryGid "rdma endpoint ibv_query_gid failed"
      let pd ← acquire calls.ibvAllocPd "rdma endpoint ibv_alloc_pd failed" .pd [ctx]
      -- `release` of both guards
      assign fun vars => (⟨none, none⟩, vars.2)
      return some ⟨ctx, pd⟩

/-- The loop over the devices, and what follows when none matches. -/
def findDevice (list : Object) (hasIfname : Bool) : List DeviceCalls → Procedure σ Kind RdmaEndpoint
  | [] =>
      throw (if hasIfname then "rdma endpoint: no active RDMA HCA tied to interface"
        else "rdma endpoint: no active RDMA HCA found")
  | device :: rest => do
      match ← inScope Guards.custody ⟨none, none⟩ (tryDevice list device) with
      | some endpoint => return endpoint
      | none => findDevice list hasIfname rest

/-- `RdmaEndpoint::create_from_environment` -/
def createFromEnvironment (calls : EndpointCalls) : Procedure σ Kind RdmaEndpoint := do
  require calls.parseGidIndexEnv "NANO_NCCL_RDMA_GID_INDEX out of range"
  let list ← acquire calls.ibvGetDeviceList "rdma endpoint ibv_get_device_list failed" .deviceList
      []
  inScope (fun guard : List Object => guard) [list] do
    require (!calls.devices.isEmpty) "rdma endpoint: no RDMA devices found"
    findDevice list calls.hasIfname calls.devices

/-- Calls of `RdmaQp::create_init`. -/
structure QpCalls where
  ibvCreateCq : Bool
  ibvCreateQp : Bool
  /-- `modify_qp_to_init` -/
  modifyQpToInit : Bool
  deriving DecidableEq, Repr

/-- `RdmaQp` -/
structure RdmaQp where
  qp : Object
  cq : Object
  deriving DecidableEq, Repr

/-- What `~RdmaQp` releases. -/
def RdmaQp.custody (qp : RdmaQp) : List Object := [qp.qp, qp.cq]

/-- `RdmaQp::create_init` -/
def createInit (endpoint : RdmaEndpoint) (calls : QpCalls) : Procedure σ Kind RdmaQp := do
  let cq ← acquire calls.ibvCreateCq "rdma endpoint ibv_create_cq failed" .cq [endpoint.context]
  match ← attempt calls.ibvCreateQp .qp [endpoint.pd, cq] with
  | none =>
      release [cq]
      throw "rdma qp ibv_create_qp failed"
  | some qp =>
      if calls.modifyQpToInit then return ⟨qp, cq⟩
      else
        release [qp]
        release [cq]
        throw "rdma qp ibv_modify_qp INIT failed"

/-! ### Resources of a channel -/

/-- Calls that allocate and register a FIFO. -/
structure FifoCalls where
  mapped : MappedCalls
  /-- `ibv_reg_mr` of host memory. -/
  ibvRegMr : Bool
  /-- `cudaSetDevice` and `cudaMalloc` -/
  cudaMalloc : Bool
  /-- `enable_gpu_rdma_sync_memops` -/
  syncMemops : Bool
  /-- `cuMemGetHandleForAddressRange` -/
  dmabufHandle : Bool
  ibvRegDmabufMr : Bool
  /-- `ibv_reg_mr` of device memory. -/
  ibvRegDeviceMr : Bool
  deriving DecidableEq, Repr

/-- `try_reg_dmabuf` -/
def tryRegDmabuf (endpoint : RdmaEndpoint) (memory : Object) (calls : FifoCalls) :
    Procedure σ Kind (Option Object) := do
  match ← attempt calls.dmabufHandle .dmabuf [memory] with
  | none => return none
  | some fd =>
      let mr ← attempt calls.ibvRegDmabufMr .mr [endpoint.pd, memory]
      release [fd]
      return mr

/-- `RdmaRegisteredMemory::register_device` -/
def registerDevice (endpoint : RdmaEndpoint) (memory : Object) (calls : FifoCalls) :
    Procedure σ Kind Object := do
  require calls.syncMemops "rdma gdr cuPointerSetAttribute(SYNC_MEMOPS) failed"
  match ← tryRegDmabuf endpoint memory calls with
  | some mr => return mr
  | none =>
      acquire calls.ibvRegDeviceMr "rdma gdr register_device unavailable" .mr [endpoint.pd, memory]

/-- `RdmaChannelResources` -/
structure ChannelResources where
  fifo : Option Object
  deviceFifo : Option Object
  control : Option Object
  payloadBytes : Option Object
  fifoMemory : Option Object
  registered : Option Object
  ctsSlots : Option Object
  ctsRegistered : Option Object
  qp : Option RdmaQp
  deriving DecidableEq, Repr

namespace ChannelResources

/-- A null pointer to resources. -/
def null : ChannelResources := ⟨none, none, none, none, none, none, none, none, none⟩

variable (resources : ChannelResources)

/-- What the destructor releases behind the queue pair. -/
def memory : List Object :=
  resources.ctsRegistered.toList ++ resources.ctsSlots.toList ++ resources.registered.toList ++
    resources.fifoMemory.toList ++ resources.payloadBytes.toList ++ resources.control.toList ++
    resources.deviceFifo.toList ++ resources.fifo.toList

/-- What the destructor releases; the members go in the reverse order of their declaration. -/
def custody : List Object := (resources.qp.elim [] RdmaQp.custody) ++ resources.memory

end ChannelResources

/-- `make_rdma_resources` -/
def makeRdmaResources (control payloadBytes : MappedCalls) : Procedure σ Kind ChannelResources :=
  inScope ChannelResources.custody .null do
    zoom (fun vars => vars.1.control)
      (fun control vars => ({ vars.1 with control := control }, vars.2))
      (resetMapped control)
    zoom (fun vars => vars.1.payloadBytes)
      (fun bytes vars => ({ vars.1 with payloadBytes := bytes }, vars.2)) (resetMapped payloadBytes)
    let state ← get
    assign fun vars => (.null, vars.2)
    return state.1.1

/-- `allocate_rdma_fifo` -/
def allocateRdmaFifo (endpoint : RdmaEndpoint) (placement : RdmaMemoryPlacement)
    (calls : FifoCalls) : Procedure ChannelResources Kind Unit :=
  match placement with
  | .gpuDirect => do
      let memory ← acquire calls.cudaMalloc "CUDA error" .device []
      assign fun resources => { resources with deviceFifo := some memory }
      let mr ← registerDevice endpoint memory calls
      assign fun resources => { resources with fifoMemory := some mr }
  | .hostPin => do
      let memory ← newMappedBuffer calls.mapped
      assign fun resources => { resources with fifo := some memory }
      let mr ← acquire calls.ibvRegMr "ibv_reg_mr rdma fifo" .mr [endpoint.pd, memory]
      assign fun resources => { resources with registered := some mr }

/-- `register_rdma_cts_buffer` -/
def registerRdmaCtsBuffer (endpoint : RdmaEndpoint) (ibvRegMr : Bool) :
    Procedure ChannelResources Kind Unit := do
  let slots ← acquire true "" .array []
  assign fun resources => { resources with ctsSlots := some slots }
  let mr ← acquire ibvRegMr "ibv_reg_mr rdma cts" .mr [endpoint.pd, slots]
  assign fun resources => { resources with ctsRegistered := some mr }

/-! ### The RDMA transport -/

/-- `RdmaSendProxy` and `RdmaRecvProxy` -/
structure Proxy where
  isSend : Bool
  qp : RdmaQp
  /-- `imm_scratch_` -/
  scratch : Option Object
  /-- `imm_scratch_mr_` -/
  scratchMr : Option Object
  thread : Option Object
  deriving DecidableEq, Repr

namespace Proxy

/-- What the destructor releases once the thread has been joined. -/
def objects (proxy : Proxy) : List Object :=
  proxy.scratchMr.toList ++ proxy.scratch.toList ++ proxy.qp.custody

/-- What the destructor releases, which joins the thread first. -/
def custody (proxy : Proxy) : List Object := proxy.thread.toList ++ proxy.objects

/-- `join` -/
def join (proxy : Proxy) : Proxy := { proxy with thread := none }

end Proxy

/-- The RDMA members of `Communicator::Impl`. -/
structure RdmaTransport where
  endpoint : Option RdmaEndpoint
  /-- `rdma_send_resources_` and `rdma_recv_resources_`; the newest come first. -/
  channels : List ChannelResources
  /-- `rdma_abort_` -/
  abort : Option Object
  /-- `rdma_send_proxies_` and `rdma_recv_proxies_` -/
  proxies : List Proxy
  /-- The thread of `rdma_progress_`. -/
  progress : Option Object
  deriving DecidableEq, Repr

namespace RdmaTransport

/-- The members before the setup. -/
def null : RdmaTransport := ⟨none, [], none, [], none⟩

variable (transport : RdmaTransport)

/-- What the members behind the proxies own. -/
def base : List Object :=
  transport.abort.toList ++ transport.channels.flatMap ChannelResources.custody ++
    transport.endpoint.elim [] RdmaEndpoint.custody

/-- What the destructors of the members release, in the reverse order of their declaration. They
alone run when the constructor of `Impl` throws. -/
def custody : List Object :=
  transport.progress.toList ++ transport.proxies.flatMap Proxy.custody ++ transport.base

/-- Every thread. -/
def threads : List Object :=
  transport.progress.toList ++ transport.proxies.flatMap fun proxy => proxy.thread.toList

/-- The members when every thread has been joined. -/
def join : RdmaTransport :=
  { transport with progress := none, proxies := transport.proxies.map Proxy.join }

/-- What `~Impl` releases: its body joins the threads, and then the members go. -/
def destroyed : List Object := transport.threads ++ transport.join.custody

end RdmaTransport

/-- Calls for the resources of a channel of an edge. -/
structure LinkCalls where
  control : MappedCalls
  payloadBytes : MappedCalls
  qp : QpCalls
  fifo : FifoCalls
  /-- `ibv_reg_mr` in `register_rdma_cts_buffer`. -/
  cts : Bool
  deriving DecidableEq, Repr

/-- `PendingRdma`, with what becomes of it. -/
structure PendingRdma where
  isSend : Bool
  /-- The place of its resources. -/
  index : ℕ
  /-- The checks of the peer's `RdmaPeerInfo`. -/
  checks : Except String Unit
  /-- `transition_to_rtr` and `transition_to_rts` -/
  transitions : Except String Unit
  /-- `RdmaGdrReceiveFlush::for_device`, and the checks of the proxy's constructor. -/
  validates : Except String Unit
  /-- `ibv_reg_mr` of `imm_scratch_` -/
  scratch : Bool

/-- The environment of `setup_rdma_transport`. -/
structure SetupCalls where
  placement : RdmaMemoryPlacement
  writeCts : Bool
  sharedProgress : Bool
  endpoint : EndpointCalls
  abort : MappedCalls
  /-- Local ends of the edges, in the order of the loops. -/
  links : List LinkCalls
  /-- Identities of the connections, and the exchange of `RdmaPeerInfo`. -/
  exchange : Except String Unit
  pending : List PendingRdma
  /-- `prepare`, and for a thread of its own its creation. -/
  starts : Proxy → Except String Unit
  /-- `exchange_ready_bytes` -/
  ready : Except String Unit
  /-- Creation of the thread of `rdma_progress_`. -/
  progress : Bool

/-- What is thrown is passed on. -/
def check (outcome : Except String Unit) : Procedure σ Kind Unit :=
  match outcome with
  | .ok () => pure ()
  | .error message => throw message

/-- The rest of the work for the resources of a channel. -/
def buildChannel (endpoint : RdmaEndpoint) (calls : SetupCalls) (link : LinkCalls) :
    Procedure ChannelResources Kind Unit := do
  let qp ← createInit endpoint link.qp
  assign fun resources => { resources with qp := some qp }
  allocateRdmaFifo endpoint calls.placement link.fifo
  if calls.writeCts then registerRdmaCtsBuffer endpoint link.cts

/-- The loops over the edges and channels. -/
def buildChannels (endpoint : RdmaEndpoint) (calls : SetupCalls) :
    List LinkCalls → Procedure RdmaTransport Kind Unit
  | [] => pure ()
  | link :: rest => do
      let resources ← makeRdmaResources link.control link.payloadBytes
      assign fun vars => { vars with channels := resources :: vars.channels }
      zoom (fun vars => vars.channels.headD .null)
        (fun resources vars => { vars with channels := resources :: vars.channels.tail })
        (buildChannel endpoint calls link)
      buildChannels endpoint calls rest

/-- Move the queue pair out of the resources at a place. -/
def takeQp : ℕ → List ChannelResources → Option (RdmaQp × List ChannelResources)
  | _, [] => none
  | 0, resources :: rest =>
      resources.qp.map fun qp => (qp, { resources with qp := none } :: rest)
  | index + 1, resources :: rest =>
      (takeQp index rest).map fun taken => (taken.1, resources :: taken.2)

/-- The proxy for a queue pair. While it is made, it is a local variable. -/
def makeProxy (endpoint : RdmaEndpoint) (writeCts : Bool) (item : PendingRdma) (qp : RdmaQp) :
    Procedure RdmaTransport Kind Unit :=
  inScope (fun taken : Option Proxy => taken.elim [] Proxy.custody)
      (some ⟨item.isSend, qp, none, none, none⟩) do
    check item.validates
    if writeCts && !item.isSend then
      let scratch ← acquire true "" .array []
      assign fun vars => (some ⟨item.isSend, qp, some scratch, none, none⟩, vars.2)
      let mr ← acquire item.scratch "ibv_reg_mr imm scratch" .mr [endpoint.pd, scratch]
      assign fun vars => (some ⟨item.isSend, qp, some scratch, some mr, none⟩, vars.2)
    assign fun vars => (none, { vars.2 with proxies := vars.1.toList ++ vars.2.proxies })

/-- The loop over the connections after the exchange. -/
def connectPending (endpoint : RdmaEndpoint) (writeCts : Bool) :
    List PendingRdma → Procedure RdmaTransport Kind Unit
  | [] => pure ()
  | item :: rest => do
      check item.checks
      let state ← get
      match takeQp item.index state.1.channels with
      -- A null pointer is used.
      | none => misuse
      | some (qp, channels) =>
          useAll qp.custody
          check item.transitions
          assign fun vars => { vars with channels := channels }
          makeProxy endpoint writeCts item qp
          connectPending endpoint writeCts rest

/-- `start` of a proxy, whose thread works on all of these. -/
def startProxy (memory : List Object) (starts : Proxy → Except String Unit) :
    Procedure Proxy Kind Unit := do
  let state ← get
  if state.1.thread.isSome then throw "rdma proxy already started"
  check (starts state.1)
  let thread ← acquire true "" .thread (state.1.objects ++ memory)
  assign fun proxy => { proxy with thread := some thread }

/-- Start the proxies of one side. -/
def startSide (isSend : Bool) (memory : List Object) (starts : Proxy → Except String Unit) :
    Procedure (List Proxy) Kind Unit :=
  forEach do
    let state ← get
    if state.1.isSend == isSend then startProxy memory starts

/-- `prepare` of the proxies of one side. -/
def prepareSide (isSend : Bool) (starts : Proxy → Except String Unit) :
    Procedure (List Proxy) Kind Unit :=
  forEach do
    let state ← get
    if state.1.isSend == isSend then check (starts state.1)

/-- Code for the proxies. -/
def onProxies (body : Procedure (List Proxy) Kind Unit) : Procedure RdmaTransport Kind Unit :=
  zoom (fun vars => vars.proxies) (fun proxies vars => { vars with proxies := proxies }) body

/-- The end of `setup_rdma_transport`. -/
def startTransport (calls : SetupCalls) : Procedure RdmaTransport Kind Unit := do
  if calls.sharedProgress then
    onProxies (prepareSide false calls.starts)
    check calls.ready
    onProxies (prepareSide true calls.starts)
    let state ← get
    if !state.1.proxies.isEmpty then
      let thread ← acquire calls.progress "rdma progress thread" .thread
        (state.1.proxies.flatMap Proxy.objects ++ state.1.base)
      assign fun vars => { vars with progress := some thread }
  else
    let state ← get
    onProxies (startSide false state.1.base calls.starts)
    check calls.ready
    onProxies (startSide true state.1.base calls.starts)

/-- `setup_rdma_transport` -/
@[irreducible] def setupRdmaTransport (calls : SetupCalls) : Procedure RdmaTransport Kind Unit := do
  let endpoint ← createFromEnvironment calls.endpoint
  assign fun vars => { vars with endpoint := some endpoint }
  zoom (fun vars => vars.abort) (fun abort vars => { vars with abort := abort })
    (resetMapped calls.abort)
  buildChannels endpoint calls calls.links
  check calls.exchange
  connectPending endpoint calls.writeCts calls.pending
  startTransport calls

end Objects
end Communicator
end NanoNccl
