import Mathlib.Tactic.Common
import NanoNccl.Geometry
import NanoNccl.Lib.Records

/-!
# What the two ends of an RDMA edge tell each other

Both ends send an `RdmaPeerInfo` over the TCP connection of the edge: where their queue pair is and,
in the WriteCts plane, where the other end may write. An end checks what it has received, that both
run the same data plane with the same memory placement, brings its queue pair up and fills in the
targets of its proxy.
-/

namespace NanoNccl.Rdma

open Records

/-- `RdmaDataPlane` -/
inductive RdmaDataPlane
  | sendRecv
  | writeCts
  deriving DecidableEq, Repr

/-- `RdmaMemoryPlacement` -/
inductive RdmaMemoryPlacement
  | hostPin
  | gpuDirect
  deriving DecidableEq, Repr

/-- `RdmaPeerInfo` -/
structure RdmaPeerInfo where
  qpn : UInt32
  psn : UInt32
  portLid : UInt16
  gidIndex : UInt16
  gid : Vector UInt8 16
  activeMtu : UInt32
  recvFifoAddr : UInt64
  recvFifoRkey : UInt32
  recvFifoBytes : UInt32
  ctsFifoAddr : UInt64
  ctsFifoRkey : UInt32
  ctsSlotCount : UInt32
  flags : UInt32
  deriving DecidableEq, Repr

/-- `kRdmaPeerFlagGpuDirect` -/
def kRdmaPeerFlagGpuDirect : UInt32 := 1

/-- `kRdmaPeerFlagWriteCts` -/
def kRdmaPeerFlagWriteCts : UInt32 := 2

/-- `kRdmaPeerKnownFlags` -/
def kRdmaPeerKnownFlags : UInt32 := kRdmaPeerFlagGpuDirect ||| kRdmaPeerFlagWriteCts

/-- `sizeof(RdmaPeerInfo)` -/
def peerInfoBytes : ℕ := 72

/-- Fields of an `RdmaPeerInfo` in memory. The four bytes that pad it to the alignment of its
addresses hold anything. -/
def peerInfoFields (info : RdmaPeerInfo) (padding : UInt32) : List (List UInt8) :=
  [word32 info.qpn, word32 info.psn, word16 info.portLid, word16 info.gidIndex, info.gid.toList,
    word32 info.activeMtu, word64 info.recvFifoAddr, word32 info.recvFifoRkey,
    word32 info.recvFifoBytes, word64 info.ctsFifoAddr, word32 info.ctsFifoRkey,
    word32 info.ctsSlotCount, word32 info.flags, word32 padding]

/-- Their widths. -/
def peerInfoWidths : List ℕ := [4, 4, 2, 2, 16, 4, 8, 4, 4, 8, 4, 4, 4, 4]

/-- The bytes that `send_all` is given. -/
def wirePeerInfo (info : RdmaPeerInfo) (padding : UInt32) : List UInt8 :=
  (peerInfoFields info padding).flatten

/-- The `RdmaPeerInfo` that `recv_all` leaves in memory; none when the bytes are too few. -/
def readPeerInfo (bytes : List UInt8) : Option RdmaPeerInfo :=
  match splitFields peerInfoWidths bytes with
  | some [qpn, psn, portLid, gidIndex, gid, activeMtu, recvFifoAddr, recvFifoRkey, recvFifoBytes,
      ctsFifoAddr, ctsFifoRkey, ctsSlotCount, flags, _] =>
      some
        { qpn := readWord32 qpn
          psn := readWord32 psn
          portLid := readWord16 portLid
          gidIndex := readWord16 gidIndex
          gid := .ofFn fun i => gid.getD i 0
          activeMtu := readWord32 activeMtu
          recvFifoAddr := readWord64 recvFifoAddr
          recvFifoRkey := readWord32 recvFifoRkey
          recvFifoBytes := readWord32 recvFifoBytes
          ctsFifoAddr := readWord64 ctsFifoAddr
          ctsFifoRkey := readWord32 ctsFifoRkey
          ctsSlotCount := readWord32 ctsSlotCount
          flags := readWord32 flags }
  | _ => none

theorem peerInfoFields_widths (info : RdmaPeerInfo) (padding : UInt32) :
    (peerInfoFields info padding).map List.length = peerInfoWidths := by
  simp [peerInfoFields, peerInfoWidths]

@[simp] theorem length_wirePeerInfo (info : RdmaPeerInfo) (padding : UInt32) :
    (wirePeerInfo info padding).length = peerInfoBytes := by
  rw [wirePeerInfo, List.length_flatten, peerInfoFields_widths]
  rfl

/-- The other end reads what was sent. -/
theorem readPeerInfo_wirePeerInfo (info : RdmaPeerInfo) (padding : UInt32) :
    readPeerInfo (wirePeerInfo info padding) = some info := by
  have gid : (Vector.ofFn fun i : Fin 16 => info.gid.toList.getD i 0) = info.gid := by
    ext i inside
    simp
  rw [readPeerInfo, wirePeerInfo, splitFields_of_widths (peerInfoFields_widths info padding)]
  simp only [peerInfoFields, readWord16_word16, readWord32_word32, readWord64_word64, gid]

/-! ### The local end -/

/-- What `RdmaEndpoint` knows of the port. -/
structure RdmaEndpoint where
  portLid : UInt16
  gidIndex : UInt16
  activeMtu : UInt32
  gid : Vector UInt8 16
  deriving DecidableEq, Repr

/-- `RdmaChannelResources`, as far as the other end is told of them. -/
structure RdmaChannelResources where
  /-- Number of the queue pair. -/
  qpn : UInt32
  /-- `data_ptr` -/
  dataPtr : UInt64
  /-- `fifo_mr_raw->rkey` -/
  fifoRkey : UInt32
  /-- `cts_slots` -/
  ctsSlots : UInt64
  /-- `cts_mr_raw->rkey` -/
  ctsRkey : UInt32
  deriving DecidableEq, Repr

/-- What a process has chosen for all of its RDMA edges. -/
structure RdmaSetup where
  plane : RdmaDataPlane
  placement : RdmaMemoryPlacement
  /-- `rdma_shared_progress_` -/
  sharedProgress : Bool
  endpoint : RdmaEndpoint
  deriving DecidableEq, Repr

variable (setup : RdmaSetup) (resources : RdmaChannelResources) (isSend isRecv : Bool)

/-- `write_cts` -/
def RdmaSetup.writeCts : Bool := decide (setup.plane = .writeCts)

/-- `local_info.flags` -/
def RdmaSetup.localFlags : UInt32 :=
  (if setup.placement = .gpuDirect then kRdmaPeerFlagGpuDirect else 0) |||
    (if setup.writeCts then kRdmaPeerFlagWriteCts else 0)

/-- `local_info` of a connection -/
def localInfo : RdmaPeerInfo where
  qpn := resources.qpn
  psn := 0
  portLid := setup.endpoint.portLid
  gidIndex := setup.endpoint.gidIndex
  gid := setup.endpoint.gid
  activeMtu := setup.endpoint.activeMtu
  recvFifoAddr := if setup.writeCts && isRecv then resources.dataPtr else 0
  recvFifoRkey := if setup.writeCts && isRecv then resources.fifoRkey else 0
  recvFifoBytes := if setup.writeCts && isRecv then .ofNat kFifoBytes else 0
  ctsFifoAddr := if setup.writeCts && isSend then resources.ctsSlots else 0
  ctsFifoRkey := if setup.writeCts && isSend then resources.ctsRkey else 0
  ctsSlotCount := if setup.writeCts && isSend then .ofNat kFifoSteps else 0
  flags := setup.localFlags

/-! ### Checks of the other end -/

/-- The checks of what was received. -/
def checkPeer (edge : ℕ) (remote : RdmaPeerInfo) : Except String Unit :=
  if remote.flags &&& ~~~kRdmaPeerKnownFlags ≠ 0 ∨ remote.flags ≠ setup.localFlags then
    .error ("rdma peer data plane or GDR placement mismatch for edge " ++ toString edge)
  else if (setup.writeCts && isSend) ∧
      (remote.recvFifoAddr = 0 ∨ remote.recvFifoRkey = 0 ∨ remote.recvFifoBytes = 0) then
    .error "rdma WriteCts peer missing recv FIFO endpoint"
  else if (setup.writeCts && isRecv) ∧
      (remote.ctsFifoAddr = 0 ∨ remote.ctsFifoRkey = 0 ∨ remote.ctsSlotCount = 0) then
    .error "rdma WriteCts peer missing CTS FIFO endpoint"
  else if (setup.writeCts && isRecv) ∧ remote.ctsSlotCount ≠ .ofNat kFifoSteps then
    .error "rdma WriteCts peer CTS slot_count mismatch"
  else .ok ()

/-- `negotiate_path_mtu` -/
def negotiatePathMtu (own remote : UInt32) : Except String UInt32 :=
  if own < 1 ∨ own > 5 ∨ remote < 1 ∨ remote > 5 then
    .error ("rdma path_mtu out of range (local=" ++ toString own ++ " remote=" ++
      toString remote ++ ")")
  else .ok (if own < remote then own else remote)

/-- What `transition_to_rtr` and `transition_to_rts` make of a queue pair. -/
structure ConnectedQp where
  pathMtu : UInt32
  destQpNum : UInt32
  rqPsn : UInt32
  dlid : UInt16
  dgid : Vector UInt8 16
  sgidIndex : UInt8
  sqPsn : UInt32
  deriving DecidableEq, Repr

/-- `transition_to_rtr` and then `transition_to_rts` with `kLocalPsn` -/
def connectQp (remote : RdmaPeerInfo) : Except String ConnectedQp :=
  if setup.endpoint.gidIndex > 0xff then
    .error "local RDMA GID index exceeds verbs range"
  else
    (negotiatePathMtu setup.endpoint.activeMtu remote.activeMtu).map fun pathMtu =>
      { pathMtu := pathMtu
        destQpNum := remote.qpn
        rqPsn := remote.psn
        dlid := remote.portLid
        dgid := remote.gid
        sgidIndex := setup.endpoint.gidIndex.toUInt8
        sqPsn := 0 }

/-- `RdmaWriteTargets` -/
structure RdmaWriteTargets where
  remoteFifoAddr : UInt64
  remoteFifoRkey : UInt32
  remoteFifoBytes : UInt32
  localCts : UInt64
  ctsSlotCount : ℕ
  deriving DecidableEq, Repr

/-- `RdmaCtsRemote` -/
structure RdmaCtsRemote where
  remoteCtsAddr : UInt64
  remoteCtsRkey : UInt32
  ctsSlotCount : ℕ
  localShadow : UInt64
  localRecvFifoAddr : UInt64
  localRecvFifoRkey : UInt32
  deriving DecidableEq, Repr

/-- A proxy, with what its constructor is given. -/
inductive RdmaProxy
  /-- `RdmaSendProxy`, with targets in the WriteCts plane. -/
  | send (qp : ConnectedQp) (targets : Option RdmaWriteTargets)
  /-- `RdmaRecvProxy`, with the other end's CTS slots in the WriteCts plane. -/
  | recv (qp : ConnectedQp) (remote : Option RdmaCtsRemote)
  deriving DecidableEq, Repr

/-- `validate_fifo`, for the FIFO of the resources -/
def validateFifo : Except String Unit :=
  if resources.dataPtr = 0 ∨ kFifoBytes / kFifoSteps = 0 ∨ kFifoSteps = 0 ∨ kSliceSteps = 0 ∨
      kFifoSteps % kSliceSteps ≠ 0 ∨ kFifoSteps > (2 ^ 64 - 1) / (kFifoBytes / kFifoSteps) then
    .error "rdma proxy has invalid FIFO storage"
  else .ok ()

/-- `validate_write_targets` -/
def validateWriteTargets (targets : RdmaWriteTargets) : Except String Unit :=
  if targets.remoteFifoAddr = 0 ∨ targets.remoteFifoBytes = 0 ∨ targets.localCts = 0 ∨
      targets.ctsSlotCount = 0 then
    .error "rdma send proxy WriteCts targets are incomplete"
  else .ok ()

/-- `validate_cts_remote` and the check that follows it -/
def validateCtsRemote (remote : RdmaCtsRemote) : Except String Unit :=
  if remote.remoteCtsAddr = 0 ∨ remote.ctsSlotCount = 0 ∨ remote.localRecvFifoAddr = 0 ∨
      remote.localShadow = 0 then
    .error "rdma recv proxy WriteCts CTS remote is incomplete"
  else if remote.ctsSlotCount ≠ kFifoSteps then
    .error "rdma WriteCts CTS slot_count must match FIFO slot_count"
  else .ok ()

/-- `targets` of a send proxy -/
def writeTargets (remote : RdmaPeerInfo) : RdmaWriteTargets where
  remoteFifoAddr := remote.recvFifoAddr
  remoteFifoRkey := remote.recvFifoRkey
  remoteFifoBytes := remote.recvFifoBytes
  localCts := resources.ctsSlots
  ctsSlotCount := kFifoSteps

/-- `cts_remote` of a receive proxy -/
def ctsRemote (remote : RdmaPeerInfo) : RdmaCtsRemote where
  remoteCtsAddr := remote.ctsFifoAddr
  remoteCtsRkey := remote.ctsFifoRkey
  ctsSlotCount := remote.ctsSlotCount.toNat
  localShadow := resources.ctsSlots
  localRecvFifoAddr := resources.dataPtr
  localRecvFifoRkey := resources.fifoRkey

/-- One turn of the loop of `setup_rdma_transport` over what was received. -/
def connectPeer (edge : ℕ) (remote : RdmaPeerInfo) : Except String RdmaProxy := do
  checkPeer setup isSend isRecv edge remote
  let qp ← connectQp setup remote
  validateFifo resources
  if isSend then
    if setup.writeCts then
      validateWriteTargets (writeTargets resources remote)
      return .send qp (some (writeTargets resources remote))
    else return .send qp none
  else
    if setup.writeCts then
      validateCtsRemote (ctsRemote resources remote)
      return .recv qp (some (ctsRemote resources remote))
    else return .recv qp none

/-! ### When an end accepts the other -/

/-- What an end wants of its own port and resources and of what it has received. -/
structure Accepts (remote : RdmaPeerInfo) : Prop where
  flags : remote.flags = setup.localFlags
  own_mtu : 1 ≤ setup.endpoint.activeMtu ∧ setup.endpoint.activeMtu ≤ 5
  mtu : 1 ≤ remote.activeMtu ∧ remote.activeMtu ≤ 5
  gid_index : setup.endpoint.gidIndex ≤ 0xff
  data : resources.dataPtr ≠ 0
  cts : setup.plane = .writeCts → resources.ctsSlots ≠ 0
  /-- The sender is told where to write. -/
  fifo : setup.plane = .writeCts → isSend = true →
    remote.recvFifoAddr ≠ 0 ∧ remote.recvFifoRkey ≠ 0 ∧ remote.recvFifoBytes ≠ 0
  /-- The receiver is told where to write its CTS slots. -/
  slots : setup.plane = .writeCts → isSend = false →
    remote.ctsFifoAddr ≠ 0 ∧ remote.ctsFifoRkey ≠ 0 ∧ remote.ctsSlotCount = .ofNat kFifoSteps

/-- The queue pair an accepting end gets. -/
def connectedQp (remote : RdmaPeerInfo) : ConnectedQp where
  pathMtu :=
    if setup.endpoint.activeMtu < remote.activeMtu then setup.endpoint.activeMtu
    else remote.activeMtu
  destQpNum := remote.qpn
  rqPsn := remote.psn
  dlid := remote.portLid
  dgid := remote.gid
  sgidIndex := setup.endpoint.gidIndex.toUInt8
  sqPsn := 0

/-- The proxy an accepting end makes. -/
def proxyOf (remote : RdmaPeerInfo) : RdmaProxy :=
  if isSend then
    .send (connectedQp setup remote)
      (if setup.writeCts then some (writeTargets resources remote) else none)
  else
    .recv (connectedQp setup remote)
      (if setup.writeCts then some (ctsRemote resources remote) else none)

variable {setup resources isSend}

@[simp] theorem writeCts_eq_true : setup.writeCts = true ↔ setup.plane = .writeCts := by
  simp [RdmaSetup.writeCts]

@[simp] theorem writeCts_eq_false : setup.writeCts = false ↔ setup.plane ≠ .writeCts := by
  simp [RdmaSetup.writeCts]

theorem localFlags_known (setup : RdmaSetup) : setup.localFlags &&& ~~~kRdmaPeerKnownFlags = 0 := by
  unfold RdmaSetup.localFlags RdmaSetup.writeCts
  cases setup.plane <;> cases setup.placement <;> decide

/-- The flags tell the plane and the placement. -/
theorem localFlags_inj {setup' : RdmaSetup} (same : setup.localFlags = setup'.localFlags) :
    setup.plane = setup'.plane ∧ setup.placement = setup'.placement := by
  unfold RdmaSetup.localFlags RdmaSetup.writeCts at same
  revert same
  cases setup.plane <;> cases setup.placement <;> cases setup'.plane <;>
    cases setup'.placement <;> decide

theorem validateFifo_eq_ok : validateFifo resources = .ok () ↔ resources.dataPtr ≠ 0 := by
  have sizes : ¬ (kFifoBytes / kFifoSteps = 0 ∨ kFifoSteps = 0 ∨ kSliceSteps = 0 ∨
      kFifoSteps % kSliceSteps ≠ 0 ∨ kFifoSteps > (2 ^ 64 - 1) / (kFifoBytes / kFifoSteps)) := by
    decide
  rw [validateFifo, if_congr (or_iff_left sizes) rfl rfl]
  by_cases null : resources.dataPtr = 0 <;> simp [null]

theorem connectQp_eq_ok {remote : RdmaPeerInfo} {qp : ConnectedQp} :
    connectQp setup remote = .ok qp ↔
      ((1 ≤ setup.endpoint.activeMtu ∧ setup.endpoint.activeMtu ≤ 5) ∧
        (1 ≤ remote.activeMtu ∧ remote.activeMtu ≤ 5) ∧ setup.endpoint.gidIndex ≤ 0xff) ∧
      qp = connectedQp setup remote := by
  unfold connectQp negotiatePathMtu
  by_cases index : setup.endpoint.gidIndex > 0xff
  · have beyond : ¬ setup.endpoint.gidIndex ≤ 0xff := UInt16.not_le.mpr index
    simp [index, beyond]
  · have inside : setup.endpoint.gidIndex ≤ 0xff := UInt16.not_lt.mp index
    rw [if_neg index]
    split
    next outside =>
      have not_both : ¬ ((1 ≤ setup.endpoint.activeMtu ∧ setup.endpoint.activeMtu ≤ 5) ∧
          (1 ≤ remote.activeMtu ∧ remote.activeMtu ≤ 5)) := by
        rintro ⟨⟨low, high⟩, low', high'⟩
        rcases outside with below | above | below | above
        · exact UInt32.not_lt.mpr low below
        · exact UInt32.not_lt.mpr high above
        · exact UInt32.not_lt.mpr low' below
        · exact UInt32.not_lt.mpr high' above
      simp only [Except.map, reduceCtorEq, false_iff]
      exact fun held => not_both ⟨held.1.1, held.1.2.1⟩
    next range =>
      simp only [not_or, gt_iff_lt, UInt32.not_lt] at range
      have both : (1 ≤ setup.endpoint.activeMtu ∧ setup.endpoint.activeMtu ≤ 5) ∧
          (1 ≤ remote.activeMtu ∧ remote.activeMtu ≤ 5) ∧ setup.endpoint.gidIndex ≤ 0xff :=
        ⟨⟨range.1, range.2.1⟩, ⟨range.2.2.1, range.2.2.2⟩, inside⟩
      simp only [Except.map, Except.ok.injEq, both, and_self, true_and]
      exact eq_comm

theorem checkPeer_eq_ok {edge : ℕ} {remote : RdmaPeerInfo} :
    checkPeer setup isSend (!isSend) edge remote = .ok () ↔
      remote.flags = setup.localFlags ∧
      (setup.plane = .writeCts → isSend = true →
        remote.recvFifoAddr ≠ 0 ∧ remote.recvFifoRkey ≠ 0 ∧ remote.recvFifoBytes ≠ 0) ∧
      (setup.plane = .writeCts → isSend = false →
        remote.ctsFifoAddr ≠ 0 ∧ remote.ctsFifoRkey ≠ 0 ∧
          remote.ctsSlotCount = .ofNat kFifoSteps) := by
  unfold checkPeer
  by_cases flags : remote.flags = setup.localFlags
  · have known : ¬ (remote.flags &&& ~~~kRdmaPeerKnownFlags ≠ 0 ∨
        remote.flags ≠ setup.localFlags) := by simp [flags, localFlags_known]
    have steps : (UInt32.ofNat kFifoSteps) ≠ 0 := by decide
    rw [if_neg known]
    cases isSend with
    | true =>
        by_cases write : setup.plane = .writeCts
        · simp [RdmaSetup.writeCts, write, flags, not_or]
        · simp [RdmaSetup.writeCts, write, flags]
    | false =>
        by_cases write : setup.plane = .writeCts
        · by_cases count : remote.ctsSlotCount = .ofNat kFifoSteps
          · simp [RdmaSetup.writeCts, write, flags, not_or, count, steps]
          · simp only [RdmaSetup.writeCts, write, flags, count, decide_true, Bool.and_false,
              Bool.false_eq_true, false_and, if_false, Bool.not_false, Bool.and_self, true_and,
              ne_eq, not_false_eq_true, if_true, and_false, true_implies, iff_false]
            split <;> simp
        · simp [RdmaSetup.writeCts, write, flags]
  · simp [flags]

/-- An end that accepts makes its proxy, and any other fails. -/
theorem connectPeer_eq_ok {edge : ℕ} {remote : RdmaPeerInfo} {proxy : RdmaProxy} :
    connectPeer setup resources isSend (!isSend) edge remote = .ok proxy ↔
      Accepts setup resources isSend remote ∧ proxy = proxyOf setup resources isSend remote := by
  unfold connectPeer
  cases checked : checkPeer setup isSend (!isSend) edge remote with
  | error message =>
      have refused : ¬ Accepts setup resources isSend remote := fun accepts => by
        cases checked.symm.trans (checkPeer_eq_ok.mpr ⟨accepts.flags, accepts.fifo, accepts.slots⟩)
      simp [refused, bind, Except.bind]
  | ok =>
      obtain ⟨flags, fifo, slots⟩ := checkPeer_eq_ok.mp checked
      cases connected : connectQp setup remote with
      | error message =>
          have refused : ¬ Accepts setup resources isSend remote := fun accepts => by
            cases connected.symm.trans
              (connectQp_eq_ok.mpr ⟨⟨accepts.own_mtu, accepts.mtu, accepts.gid_index⟩, rfl⟩)
          simp [refused, bind, Except.bind]
      | ok qp =>
          obtain ⟨⟨own_mtu, mtu, gid_index⟩, rfl⟩ := connectQp_eq_ok.mp connected
          cases valid : validateFifo resources with
          | error message =>
              have refused : ¬ Accepts setup resources isSend remote := fun accepts => by
                cases valid.symm.trans (validateFifo_eq_ok.mpr accepts.data)
              simp [refused, bind, Except.bind]
          | ok =>
              have data := validateFifo_eq_ok.mp valid
              by_cases write : setup.plane = .writeCts
              · by_cases null : resources.ctsSlots = 0
                · have refused : ¬ Accepts setup resources isSend remote := fun accepts =>
                    accepts.cts write null
                  cases isSend <;>
                    simp [refused, bind, Except.bind, RdmaSetup.writeCts, write,
                      validateWriteTargets, writeTargets, validateCtsRemote, ctsRemote, null]
                · have accepts : Accepts setup resources isSend remote :=
                    ⟨flags, own_mtu, mtu, gid_index, data, fun _ => null, fifo, slots⟩
                  cases isSend with
                  | true =>
                      obtain ⟨addr, -, bytes⟩ := fifo write rfl
                      have steps : kFifoSteps ≠ 0 := by decide
                      simp [accepts, bind, Except.bind, RdmaSetup.writeCts, write, proxyOf,
                        validateWriteTargets, writeTargets, null, addr, bytes, steps, pure,
                        Except.pure, eq_comm]
                  | false =>
                      obtain ⟨addr, -, count⟩ := slots write rfl
                      have steps : (UInt32.ofNat kFifoSteps).toNat = kFifoSteps := by decide
                      have steps_pos : kFifoSteps ≠ 0 := by decide
                      simp [accepts, bind, Except.bind, RdmaSetup.writeCts, write, proxyOf,
                        validateCtsRemote, ctsRemote, null, addr, count, data, steps, steps_pos,
                        pure, Except.pure, eq_comm]
              · have accepts : Accepts setup resources isSend remote :=
                  ⟨flags, own_mtu, mtu, gid_index, data, fun plane => absurd plane write, fifo,
                    slots⟩
                cases isSend <;>
                  simp [accepts, bind, Except.bind, RdmaSetup.writeCts, write, proxyOf, pure,
                    Except.pure, eq_comm]

/-! ### Both ends -/

/-- What the two ends of an edge must have in common, and each must have on its own, for both to
accept. -/
structure Compatible (source destination : RdmaSetup)
    (sends receives : RdmaChannelResources) : Prop where
  plane : source.plane = destination.plane
  placement : source.placement = destination.placement
  source_mtu : 1 ≤ source.endpoint.activeMtu ∧ source.endpoint.activeMtu ≤ 5
  destination_mtu : 1 ≤ destination.endpoint.activeMtu ∧ destination.endpoint.activeMtu ≤ 5
  source_gid : source.endpoint.gidIndex ≤ 0xff
  destination_gid : destination.endpoint.gidIndex ≤ 0xff
  send_data : sends.dataPtr ≠ 0
  recv_data : receives.dataPtr ≠ 0
  write : source.plane = .writeCts → receives.fifoRkey ≠ 0 ∧ sends.ctsSlots ≠ 0 ∧
    sends.ctsRkey ≠ 0 ∧ receives.ctsSlots ≠ 0

/-- Both ends accept each other when they are compatible, and only then. -/
theorem accepts_both_iff {source destination : RdmaSetup} {sends receives : RdmaChannelResources} :
    Accepts source sends true (localInfo destination receives false true) ∧
        Accepts destination receives false (localInfo source sends true false) ↔
      Compatible source destination sends receives := by
  have bytes : (UInt32.ofNat kFifoBytes) ≠ 0 := by decide
  constructor
  · rintro ⟨source_accepts, destination_accepts⟩
    obtain ⟨plane, placement⟩ : destination.plane = source.plane ∧
        destination.placement = source.placement := localFlags_inj source_accepts.flags
    refine
      { plane := plane.symm
        placement := placement.symm
        source_mtu := source_accepts.own_mtu
        destination_mtu := destination_accepts.own_mtu
        source_gid := source_accepts.gid_index
        destination_gid := destination_accepts.gid_index
        send_data := source_accepts.data
        recv_data := destination_accepts.data
        write := fun write => ?_ }
    have write' := plane.trans write
    have fifo := source_accepts.fifo write rfl
    have slots := destination_accepts.slots write' rfl
    simp only [localInfo, RdmaSetup.writeCts, write, write', decide_true, Bool.and_self,
      if_true] at fifo slots
    exact ⟨fifo.2.1, slots.1, slots.2.1, destination_accepts.cts write'⟩
  · intro compatible
    have flags : source.localFlags = destination.localFlags := by
      unfold RdmaSetup.localFlags RdmaSetup.writeCts
      rw [compatible.plane, compatible.placement]
    refine ⟨⟨flags.symm, compatible.source_mtu, compatible.destination_mtu, compatible.source_gid,
      compatible.send_data, fun write => (compatible.write write).2.1, fun write _ => ?_, nofun⟩,
      ⟨flags, compatible.destination_mtu, compatible.source_mtu, compatible.destination_gid,
        compatible.recv_data, fun write => ?_, nofun, fun write _ => ?_⟩⟩
    · obtain ⟨rkey, -⟩ := compatible.write write
      simp [localInfo, RdmaSetup.writeCts, ← compatible.plane, write, compatible.recv_data, rkey,
        bytes]
    · exact (compatible.write (compatible.plane.trans write)).2.2.2
    · obtain ⟨-, slots, rkey, -⟩ := compatible.write (compatible.plane.trans write)
      simp [localInfo, RdmaSetup.writeCts, compatible.plane, write, slots, rkey]

end NanoNccl.Rdma
