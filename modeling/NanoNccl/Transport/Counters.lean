import NanoNccl.Transport.Connection

/-!
# The control words of a ring

A ring edge has a head and a tail counter for every channel, and every rank keeps the steps it has
reached as a sender and as a receiver. There are three places for them: the connection regions of a
ring of processes, one array that all ranks of a process share, and a buffer on the device of each
rank. A sender and its receiver find the same counters in each, and no two words share a byte.
-/

namespace NanoNccl
namespace Transport

open Bootstrap (TransportKind receiver incomingEdge)
open Placement (Pointer Extent Placed)

variable {β : Type} {n k : ℕ}

/-! ### Control arguments -/

/-- `ControlArgs`; a null pointer is `none`. -/
structure ControlArgs (k : ℕ) (β : Type) where
  sendHead : Fin k → Option (Pointer β)
  recvTail : Fin k → Option (Pointer β)
  sendTail : Fin k → Option (Pointer β)
  recvHead : Fin k → Option (Pointer β)
  sendBaseSteps : Option (Pointer β)
  recvBaseSteps : Option (Pointer β)

def stepIdx (kRanks kChannels kind channel edge : ℕ) : ℕ :=
  (kind * kChannels + channel) * kRanks + edge

/-- `make_simple_control_args` -/
def makeSimpleControlArgs (k : ℕ) (steps baseSteps : Pointer β) (rank : Fin n) :
    ControlArgs k β where
  sendHead channel := some (steps.index wordBytes (stepIdx n k 0 channel rank))
  recvTail channel := some (steps.index wordBytes (stepIdx n k 1 channel (incomingEdge rank)))
  sendTail channel := some (steps.index wordBytes (stepIdx n k 1 channel rank))
  recvHead channel := some (steps.index wordBytes (stepIdx n k 0 channel (incomingEdge rank)))
  sendBaseSteps := some (baseSteps.index wordBytes (rank * k))
  recvBaseSteps := some (baseSteps.index wordBytes ((n + rank) * k))

/-- The control arguments in a process of a distributed ring: counters of its connections, base
steps of its own array. -/
def mpiControlArgs (view : SimpleConnectionView k (Allocation n)) (rank : Fin n) :
    ControlArgs k (Allocation n) :=
  let shm := makeSimpleControlArgs k ⟨.steps rank, 0⟩ ⟨.baseSteps rank, 0⟩ rank
  { sendHead := view.sendHead
    recvTail := view.recvTail
    sendTail := view.sendTail
    recvHead := view.recvHead
    sendBaseSteps := shm.sendBaseSteps
    recvBaseSteps := shm.recvBaseSteps }

/-- `ProcessTopology` -/
structure ProcessTopology where
  globalRankCount : ℤ
  localRankOffset : ℤ
  devices : List ℤ
  edgeKinds : List TransportKind
  distributed : Bool
  deriving DecidableEq, Repr

/-- `validate_process_topology` -/
def ProcessTopology.validate (kRanks : ℕ) (topology : ProcessTopology) : Except String Unit :=
  if topology.globalRankCount ≠ kRanks then
    .error "process topology global rank count must match kRanks"
  else if topology.devices = [] then .error "process topology requires local devices"
  else if topology.distributed ∧ topology.devices.length ≠ 1 then
    .error "distributed topology requires exactly one local GPU rank"
  else if topology.localRankOffset < 0 ∨
      topology.localRankOffset + topology.devices.length > topology.globalRankCount then
    .error "process topology local ranks are out of range"
  else if topology.edgeKinds.length ≠ topology.globalRankCount then
    .error "process topology requires one kind per global edge"
  else if ¬topology.edgeKinds.all TransportKind.isResolved then
    .error "process topology edge kind must be resolved"
  else if ¬topology.distributed ∧ (topology.localRankOffset ≠ 0 ∨
      topology.devices.length ≠ topology.globalRankCount) then
    .error "single-process topology must own every rank"
  else .ok ()

/-- `is_local_global_rank` -/
def ProcessTopology.isLocalGlobalRank (topology : ProcessTopology) (globalRank : ℤ) : Bool :=
  topology.localRankOffset ≤ globalRank ∧
    globalRank < topology.localRankOffset + topology.devices.length

/-- `P2pStepCounters`: the buffers of the local ranks with a P2P edge. -/
structure P2pStepCounters (n : ℕ) where
  plan : Fin n → TransportKind
  counters : Fin n → Option (Pointer (Allocation n))

namespace P2pStepCounters

/-- The constructor. -/
def create (plan : Fin n → TransportKind) (topology : ProcessTopology) :
    Except String (P2pStepCounters n) := do
  topology.validate n
  return {
    plan
    counters := fun rank =>
      if topology.isLocalGlobalRank rank.val then
        if plan rank ≠ .p2p ∧ plan (incomingEdge rank) ≠ .p2p then none
        else some ⟨.counters rank, 0⟩
      else none }

def kHeadOffset : ℕ := 0
def kTailOffset (kChannels : ℕ) : ℕ := kChannels
def kSendBaseStepOffset (kChannels : ℕ) : ℕ := 2 * kChannels
def kRecvBaseStepOffset (kChannels : ℕ) : ℕ := 3 * kChannels

/-- `control_args`; nothing when it would read through a null pointer. -/
def controlArgs (steps : P2pStepCounters n) (k : ℕ) (rank : Fin n) :
    Option (ControlArgs k (Allocation n)) := do
  let prev := incomingEdge rank
  let word (buffer : Pointer (Allocation n)) (offset : ℕ) (channel : Fin k) :=
    (buffer.index wordBytes offset).index wordBytes channel
  -- Buffers of the outgoing edge, as its head and its tail are reached, and of the incoming one.
  let send ← (if steps.plan rank = .p2p then do
      let own ← steps.counters rank
      let next ← steps.counters (receiver rank)
      return some (own, next)
    else some none)
  let recv ← (if steps.plan prev = .p2p then do
      let own ← steps.counters rank
      let previous ← steps.counters prev
      return some (previous, own)
    else some none)
  return {
    sendHead := fun channel => send.map fun buffers => word buffers.1 kHeadOffset channel
    sendTail := fun channel => send.map fun buffers => word buffers.2 (kTailOffset k) channel
    recvHead := fun channel => recv.map fun buffers => word buffers.1 kHeadOffset channel
    recvTail := fun channel => recv.map fun buffers => word buffers.2 (kTailOffset k) channel
    sendBaseSteps := (steps.counters rank).map (·.index wordBytes (kSendBaseStepOffset k))
    recvBaseSteps := (steps.counters rank).map (·.index wordBytes (kRecvBaseStepOffset k)) }

end P2pStepCounters

/-! ### The words -/

/-- The counters of an edge. -/
inductive Counter
  | head
  | tail
  deriving DecidableEq, Repr

/-- The ends of an edge a rank keeps a step for. -/
inductive Side
  | send
  | recv
  deriving DecidableEq, Repr

/-- A control word of a ring. -/
inductive ControlWord (n k : ℕ)
  | counter (kind : Counter) (edge : Fin n) (channel : Fin k)
  | base (side : Side) (rank : Fin n) (channel : Fin k)
  deriving DecidableEq, Repr

def ControlArgs.send (control : ControlArgs k β) : Counter → Fin k → Option (Pointer β)
  | .head => control.sendHead
  | .tail => control.sendTail

def ControlArgs.recv (control : ControlArgs k β) : Counter → Fin k → Option (Pointer β)
  | .head => control.recvHead
  | .tail => control.recvTail

def ControlArgs.base (control : ControlArgs k β) : Side → Option (Pointer β)
  | .send => control.sendBaseSteps
  | .recv => control.recvBaseSteps

/-- Where the senders and the ranks themselves find a word. -/
def ControlWord.cell (control : Fin n → ControlArgs k β) : ControlWord n k → Option (Extent β)
  | .counter kind edge channel => ((control edge).send kind channel).map (⟨·, wordBytes⟩)
  | .base side rank channel =>
      ((control rank).base side).map fun steps => ⟨steps.index wordBytes channel, wordBytes⟩

/-- Bytes of an allocation. -/
def Allocation.bytes (k fifoBytes : ℕ) : Allocation n → ℕ
  | .region _ _ => kConnectionRegionBytes k fifoBytes
  | .steps _ => 2 * k * n * wordBytes
  | .baseSteps _ => 2 * n * k * wordBytes
  | .counters _ => 4 * k * wordBytes

/-- Control arguments of all ranks that join the ends of the edges in `edges`, and give the ranks
in `ranks` their base steps. -/
structure Wired (size : β → ℕ) (edges ranks : Fin n → Prop) (control : Fin n → ControlArgs k β) :
    Prop where
  same : ∀ kind edge channel,
    (control edge).send kind channel = (control (receiver edge)).recv kind channel
  joined : ∀ kind edge channel, edges edge → ((control edge).send kind channel).isSome = true
  based : ∀ side rank, ranks rank → ((control rank).base side).isSome = true
  placed : Placed size (ControlWord.cell control)

/-! ### One array for a process -/

def Counter.index : Counter → ℕ
  | .head => 0
  | .tail => 1

def Side.index : Side → ℕ
  | .send => 0
  | .recv => 1

theorem Counter.index_inj {left right : Counter} (same : left.index = right.index) :
    left = right := by
  cases left <;> cases right <;> cases same <;> rfl

theorem Side.index_inj {left right : Side} (same : left.index = right.index) : left = right := by
  cases left <;> cases right <;> cases same <;> rfl

theorem Counter.index_lt (kind : Counter) : kind.index < 2 := by
  cases kind <;> decide

theorem Side.index_lt (side : Side) : side.index < 2 := by
  cases side <;> decide

/-- Index of a base step in the array of all ranks. -/
def baseIdx (side : Side) (rank : Fin n) (channel : Fin k) : ℕ :=
  (side.index * n + rank) * k + channel

theorem baseIdx_lt (side : Side) (rank : Fin n) (channel : Fin k) :
    baseIdx side rank channel < 2 * n * k :=
  Placement.row_column_lt (Placement.row_column_lt side.index_lt rank.isLt) channel.isLt

theorem baseIdx_inj {side side' : Side} {rank rank' : Fin n} {channel channel' : Fin k}
    (same : baseIdx side rank channel = baseIdx side' rank' channel') :
    side = side' ∧ rank = rank' ∧ channel = channel' := by
  obtain ⟨rows, channels⟩ := Placement.row_column_unique channel.isLt channel'.isLt same
  obtain ⟨sides, ranks⟩ := Placement.row_column_unique rank.isLt rank'.isLt rows
  exact ⟨Side.index_inj sides, Fin.ext ranks, Fin.ext channels⟩

theorem stepIdx_lt (kind : Counter) (channel : Fin k) (edge : Fin n) :
    stepIdx n k kind.index channel edge < 2 * k * n :=
  Placement.row_column_lt (Placement.row_column_lt kind.index_lt channel.isLt) edge.isLt

theorem stepIdx_inj {kind kind' : Counter} {channel channel' : Fin k} {edge edge' : Fin n}
    (same : stepIdx n k kind.index channel edge = stepIdx n k kind'.index channel' edge') :
    kind = kind' ∧ edge = edge' ∧ channel = channel' := by
  obtain ⟨rows, edges⟩ := Placement.row_column_unique edge.isLt edge'.isLt same
  obtain ⟨kinds, channels⟩ := Placement.row_column_unique channel.isLt channel'.isLt rows
  exact ⟨Counter.index_inj kinds, Fin.ext edges, Fin.ext channels⟩

section Simple

variable (steps baseSteps : β) (rank : Fin n)

theorem makeSimpleControlArgs_send (kind : Counter) (channel : Fin k) :
    (makeSimpleControlArgs k ⟨steps, 0⟩ ⟨baseSteps, 0⟩ rank).send kind channel =
      some (Pointer.index ⟨steps, 0⟩ wordBytes (stepIdx n k kind.index channel rank)) := by
  cases kind <;> rfl

theorem makeSimpleControlArgs_recv (kind : Counter) (channel : Fin k) :
    (makeSimpleControlArgs k ⟨steps, 0⟩ ⟨baseSteps, 0⟩ rank).recv kind channel =
      some (Pointer.index ⟨steps, 0⟩ wordBytes
        (stepIdx n k kind.index channel (incomingEdge rank))) := by
  cases kind <;> rfl

theorem makeSimpleControlArgs_base (side : Side) :
    (makeSimpleControlArgs k ⟨steps, 0⟩ ⟨baseSteps, 0⟩ rank).base side =
      some (Pointer.index ⟨baseSteps, 0⟩ wordBytes ((side.index * n + rank) * k)) := by
  cases side <;> simp [makeSimpleControlArgs, ControlArgs.base, Side.index]

end Simple

/-- The array of a process joins its ranks. -/
theorem makeSimpleControlArgs_wired (fifoBytes : ℕ) (process : Fin n) :
    Wired (Allocation.bytes k fifoBytes) (fun _ => True) (fun _ => True)
      (makeSimpleControlArgs (n := n) k ⟨.steps process, 0⟩ ⟨.baseSteps process, 0⟩) where
  same := by
    intro kind edge channel
    rw [makeSimpleControlArgs_send, makeSimpleControlArgs_recv, Bootstrap.incomingEdge_receiver]
  joined := by
    intro kind edge channel _
    rw [makeSimpleControlArgs_send]
    rfl
  based := by
    intro side rank _
    rw [makeSimpleControlArgs_base]
    rfl
  placed := by
    refine Placed.of_slots wordBytes
      (fun | .counter _ _ _ => .steps process | .base _ _ _ => .baseSteps process)
      (fun
        | .counter kind edge channel => stepIdx n k kind.index channel edge
        | .base side rank channel => baseIdx side rank channel) ?_ ?_ ?_
    · rintro (⟨kind, edge, channel⟩ | ⟨side, rank, channel⟩) extent member
      · rw [ControlWord.cell, makeSimpleControlArgs_send] at member
        exact (Option.some.inj member).symm
      · rw [ControlWord.cell, makeSimpleControlArgs_base, Option.map_some,
          Pointer.index_index] at member
        exact (Option.some.inj member).symm
    · rintro (⟨kind, edge, channel⟩ | ⟨side, rank, channel⟩)
        (⟨kind', edge', channel'⟩ | ⟨side', rank', channel'⟩) blocks slots
      · obtain ⟨rfl, rfl, rfl⟩ := stepIdx_inj slots
        rfl
      · cases blocks
      · cases blocks
      · obtain ⟨rfl, rfl, rfl⟩ := baseIdx_inj slots
        rfl
    · rintro (⟨kind, edge, channel⟩ | ⟨side, rank, channel⟩)
      · exact Nat.mul_le_mul_right wordBytes (stepIdx_lt kind channel edge)
      · exact Nat.mul_le_mul_right wordBytes (baseIdx_lt side rank channel)

/-! ### Regions between processes -/

theorem receiver_injective : Function.Injective (receiver : Fin n → Fin n) :=
  Function.LeftInverse.injective Bootstrap.incomingEdge_receiver

/-- The counters in a region. -/
def regionCounter (kind : Counter) (channel : Fin k) (region : Pointer β) : Pointer β :=
  region.index wordBytes (kind.index * k + channel)

theorem regionCounter_head (channel : Fin k) :
    regionCounter (β := β) .head channel = (connectionHead · channel) := by
  funext region
  simp [regionCounter, connectionHead, Counter.index]

theorem regionCounter_tail (channel : Fin k) :
    regionCounter (β := β) .tail channel = (connectionTail k · channel) := by
  funext region
  simp [regionCounter, connectionTail, Counter.index, Pointer.index_index]

theorem regionCounter_lt (fifoBytes : ℕ) (kind : Counter) (channel : Fin k) :
    (kind.index * k + channel + 1) * wordBytes ≤ kConnectionRegionBytes k fifoBytes := by
  have inside := Placement.row_column_lt kind.index_lt channel.isLt
  have data := counters_le_dataOffset k
  calc
    (kind.index * k + channel + 1) * wordBytes ≤ 2 * k * wordBytes :=
      Nat.mul_le_mul_right wordBytes inside
    _ ≤ kConnectionDataOffset k := by rwa [Nat.mul_assoc, Nat.two_mul]
    _ ≤ kConnectionRegionBytes k fifoBytes := Nat.le_add_right _ _

section Regions

variable (fifoBytes : ℕ) (incoming outgoing : Option (Pointer (Allocation n))) (rank : Fin n)

theorem mpiControlArgs_send (kind : Counter) (channel : Fin k) :
    (mpiControlArgs (.ofRegions k fifoBytes incoming outgoing) rank).send kind channel =
      outgoing.map (regionCounter kind channel) := by
  cases kind with
  | head =>
      rw [regionCounter_head]
      rfl
  | tail =>
      rw [regionCounter_tail]
      rfl

theorem mpiControlArgs_recv (kind : Counter) (channel : Fin k) :
    (mpiControlArgs (.ofRegions k fifoBytes incoming outgoing) rank).recv kind channel =
      incoming.map (regionCounter kind channel) := by
  cases kind with
  | head =>
      rw [regionCounter_head]
      rfl
  | tail =>
      rw [regionCounter_tail]
      rfl

theorem mpiControlArgs_base (side : Side) :
    (mpiControlArgs (.ofRegions k fifoBytes incoming outgoing) rank).base side =
      some (Pointer.index ⟨.baseSteps rank, 0⟩ wordBytes ((side.index * n + rank) * k)) := by
  rw [← makeSimpleControlArgs_base (.steps rank)]
  cases side <;> rfl

end Regions

/-- The connection regions of a ring of processes join its ranks, with one FIFO for each edge and
channel. -/
theorem mpiControlArgs_wired (k fifoBytes : ℕ) (edgeKinds : Fin n → TransportKind) :
    ∃ views : Fin n → SimpleConnectionView k (Allocation n),
      (∀ rank, transportConnections k fifoBytes edgeKinds rank = .ok (views rank)) ∧
      (∀ edge channel, (views edge).sendFifo channel = (views (receiver edge)).recvFifo channel) ∧
      Wired (Allocation.bytes k fifoBytes)
        (fun edge => edgeKinds edge = .shm ∨ edgeKinds edge = .p2p) (fun _ => True)
        fun rank => mpiControlArgs (views rank) rank := by
  refine ⟨_, transportConnections_eq, fun edge channel => rfl, ?_, ?_, ?_, ?_⟩
  · intro kind edge channel
    rw [mpiControlArgs_send, mpiControlArgs_recv]
  · intro kind edge channel used
    rw [mpiControlArgs_send, Option.isSome_map, ringRegion, Bootstrap.incomingEdge_receiver,
      if_pos used]
    rfl
  · intro side rank _
    rw [mpiControlArgs_base]
    rfl
  · refine Placed.of_slots wordBytes
      (fun
        | .counter _ edge _ => .region (edgeKinds edge) (receiver edge)
        | .base _ rank _ => .baseSteps rank)
      (fun
        | .counter kind _ channel => kind.index * k + channel
        | .base side rank channel => baseIdx side rank channel) ?_ ?_ ?_
    · rintro (⟨kind, edge, channel⟩ | ⟨side, rank, channel⟩) extent member
      · rw [ControlWord.cell, mpiControlArgs_send, ringRegion, Bootstrap.incomingEdge_receiver]
          at member
        split at member
        · exact (Option.some.inj member).symm
        · cases member
      · rw [ControlWord.cell, mpiControlArgs_base, Option.map_some, Pointer.index_index] at member
        exact (Option.some.inj member).symm
    · rintro (⟨kind, edge, channel⟩ | ⟨side, rank, channel⟩)
        (⟨kind', edge', channel'⟩ | ⟨side', rank', channel'⟩) blocks slots
      · obtain rfl := receiver_injective (Allocation.region.inj blocks).2
        obtain ⟨kinds, channels⟩ := Placement.row_column_unique channel.isLt channel'.isLt slots
        obtain rfl := Counter.index_inj kinds
        obtain rfl := Fin.ext channels
        rfl
      · cases blocks
      · cases blocks
      · obtain ⟨rfl, rfl, rfl⟩ := baseIdx_inj slots
        rfl
    · rintro (⟨kind, edge, channel⟩ | ⟨side, rank, channel⟩)
      · exact regionCounter_lt fifoBytes kind channel
      · exact Nat.mul_le_mul_right wordBytes (baseIdx_lt side rank channel)

/-! ### Buffers on the devices -/

/-- Every rank is local in a topology that is not distributed. -/
theorem isLocalGlobalRank_of_validate {topology : ProcessTopology}
    (valid : topology.validate n = .ok ()) (single : topology.distributed = false) (rank : Fin n) :
    topology.isLocalGlobalRank rank.val = true := by
  unfold ProcessTopology.validate at valid
  split at valid
  · cases valid
  rename_i ranks
  split at valid
  · cases valid
  split at valid
  · cases valid
  split at valid
  · cases valid
  split at valid
  · cases valid
  split at valid
  · cases valid
  split at valid
  · cases valid
  rename_i owned
  have below := rank.isLt
  simp only [single, Bool.false_eq_true, not_false_eq_true, true_and, not_or, not_not] at owned
  simp only [ProcessTopology.isLocalGlobalRank, decide_eq_true_eq]
  omega

namespace P2pStepCounters

/-- The buffer of a rank, with every rank local. -/
def localCounters (plan : Fin n → TransportKind) (rank : Fin n) : Option (Pointer (Allocation n)) :=
  if plan rank = .p2p ∨ plan (incomingEdge rank) = .p2p then some ⟨.counters rank, 0⟩ else none

theorem create_eq {plan : Fin n → TransportKind} {topology : ProcessTopology}
    (valid : topology.validate n = .ok ()) (single : topology.distributed = false) :
    create plan topology = .ok ⟨plan, localCounters plan⟩ := by
  unfold create
  rw [valid]
  refine congrArg (fun counters => Except.ok (P2pStepCounters.mk plan counters)) ?_
  funext rank
  rw [if_pos (isLocalGlobalRank_of_validate valid single rank), localCounters]
  by_cases used : plan rank = .p2p ∨ plan (incomingEdge rank) = .p2p
  · rw [if_pos used, if_neg (by tauto)]
  · rw [if_neg used, if_pos (by tauto)]

/-- Word `row` of a buffer for a channel. -/
def bufferWord (k : ℕ) (buffer : Fin n) (row : ℕ) (channel : Fin k) : Pointer (Allocation n) :=
  Pointer.index ⟨.counters buffer, 0⟩ wordBytes (row * k + channel)

/-- The rank whose buffer has a counter of an edge. -/
def bufferOf : Counter → Fin n → Fin n
  | .head, edge => edge
  | .tail, edge => receiver edge

/-- A counter of an edge, or a null pointer when the edge is not P2P. -/
def edgeCounter (plan : Fin n → TransportKind) (kind : Counter) (edge : Fin n) (channel : Fin k) :
    Option (Pointer (Allocation n)) :=
  if plan edge = .p2p then some (bufferWord k (bufferOf kind edge) kind.index channel) else none

/-- What `control_args` returns with every rank local. -/
def localControlArgs (k : ℕ) (plan : Fin n → TransportKind) (rank : Fin n) :
    ControlArgs k (Allocation n) where
  sendHead := edgeCounter plan .head rank
  recvTail := edgeCounter plan .tail (incomingEdge rank)
  sendTail := edgeCounter plan .tail rank
  recvHead := edgeCounter plan .head (incomingEdge rank)
  sendBaseSteps := (localCounters plan rank).map (·.index wordBytes (kSendBaseStepOffset k))
  recvBaseSteps := (localCounters plan rank).map (·.index wordBytes (kRecvBaseStepOffset k))

theorem localCounters_of_outgoing {plan : Fin n → TransportKind} {edge : Fin n}
    (outgoing : plan edge = .p2p) : localCounters plan edge = some ⟨.counters edge, 0⟩ :=
  if_pos (.inl outgoing)

theorem localCounters_of_incoming {plan : Fin n → TransportKind} {edge : Fin n}
    (incoming : plan edge = .p2p) :
    localCounters plan (receiver edge) = some ⟨.counters (receiver edge), 0⟩ :=
  if_pos (.inr (by rwa [Bootstrap.incomingEdge_receiver]))

/-- The buffers that the head and the tail of an edge are reached through. -/
def edgeBuffers (plan : Fin n → TransportKind) (edge : Fin n) :
    Option (Pointer (Allocation n) × Pointer (Allocation n)) :=
  if plan edge = .p2p then some (⟨.counters edge, 0⟩, ⟨.counters (receiver edge), 0⟩) else none

theorem edgeCounter_head (plan : Fin n → TransportKind) (edge : Fin n) (channel : Fin k) :
    (edgeBuffers plan edge).map (fun buffers =>
      (buffers.1.index wordBytes kHeadOffset).index wordBytes channel) =
        edgeCounter plan .head edge channel := by
  unfold edgeBuffers edgeCounter
  split
  · simp [bufferWord, bufferOf, Counter.index, kHeadOffset, Pointer.index_index]
  · rfl

theorem edgeCounter_tail (plan : Fin n → TransportKind) (edge : Fin n) (channel : Fin k) :
    (edgeBuffers plan edge).map (fun buffers =>
      (buffers.2.index wordBytes (kTailOffset k)).index wordBytes channel) =
        edgeCounter plan .tail edge channel := by
  unfold edgeBuffers edgeCounter
  split
  · simp [bufferWord, bufferOf, Counter.index, kTailOffset, Pointer.index_index]
  · rfl

/-- No null pointer is read: both ranks of a P2P edge have a buffer. -/
theorem controlArgs_eq (k : ℕ) (plan : Fin n → TransportKind) (rank : Fin n) :
    controlArgs ⟨plan, localCounters plan⟩ k rank = some (localControlArgs k plan rank) := by
  have send : (if plan rank = .p2p then do
        let own ← localCounters plan rank
        let next ← localCounters plan (receiver rank)
        return some (own, next)
      else some none) = some (edgeBuffers plan rank) := by
    unfold edgeBuffers
    split
    · rename_i outgoing
      rw [localCounters_of_outgoing outgoing, localCounters_of_incoming outgoing]
      rfl
    · rfl
  have recv : (if plan (incomingEdge rank) = .p2p then do
        let own ← localCounters plan rank
        let previous ← localCounters plan (incomingEdge rank)
        return some (previous, own)
      else some none) = some (edgeBuffers plan (incomingEdge rank)) := by
    unfold edgeBuffers
    split
    · rename_i incoming
      have own := localCounters_of_incoming incoming
      rw [Bootstrap.receiver_incomingEdge] at own ⊢
      rw [localCounters_of_outgoing incoming, own]
      rfl
    · rfl
  unfold controlArgs
  dsimp only
  rw [send, Option.bind_eq_bind, Option.bind_some, recv, Option.bind_some]
  simp only [edgeCounter_head, edgeCounter_tail]
  rfl

theorem localControlArgs_send (plan : Fin n → TransportKind) (rank : Fin n) (kind : Counter)
    (channel : Fin k) :
    (localControlArgs k plan rank).send kind channel = edgeCounter plan kind rank channel := by
  cases kind <;> rfl

theorem localControlArgs_recv (plan : Fin n → TransportKind) (rank : Fin n) (kind : Counter)
    (channel : Fin k) :
    (localControlArgs k plan rank).recv kind channel =
      edgeCounter plan kind (incomingEdge rank) channel := by
  cases kind <;> rfl

theorem localControlArgs_base (plan : Fin n → TransportKind) (rank : Fin n) (side : Side) :
    (localControlArgs k plan rank).base side =
      (localCounters plan rank).map (·.index wordBytes ((2 + side.index) * k)) := by
  cases side <;> rfl

/-- Row of a word in the buffers. -/
def rowOf : ControlWord n k → ℕ
  | .counter kind _ _ => kind.index
  | .base side _ _ => 2 + side.index

/-- The rank whose buffer has a word. -/
def ownerOf : ControlWord n k → Fin n
  | .counter kind edge _ => bufferOf kind edge
  | .base _ rank _ => rank

def channelOf : ControlWord n k → Fin k
  | .counter _ _ channel => channel
  | .base _ _ channel => channel

theorem rowOf_lt (word : ControlWord n k) : rowOf word < 4 := by
  rcases word with ⟨kind, edge, channel⟩ | ⟨side, rank, channel⟩
  · exact kind.index_lt.trans (by decide)
  · exact Nat.add_lt_add_left side.index_lt 2

/-- Row, channel and owner determine a word. -/
theorem word_unique {left right : ControlWord n k} (rows : rowOf left = rowOf right)
    (channels : channelOf left = channelOf right) (owners : ownerOf left = ownerOf right) :
    left = right := by
  rcases left with ⟨kind, edge, channel⟩ | ⟨side, rank, channel⟩ <;>
    rcases right with ⟨kind', edge', channel'⟩ | ⟨side', rank', channel'⟩
  · obtain rfl := Counter.index_inj rows
    obtain rfl : channel = channel' := channels
    obtain rfl : edge = edge' := by
      cases kind with
      | head => exact owners
      | tail => exact receiver_injective owners
    rfl
  · have := kind.index_lt
    simp only [rowOf] at rows
    omega
  · have := kind'.index_lt
    simp only [rowOf] at rows
    omega
  · obtain rfl := Side.index_inj (Nat.add_left_cancel rows)
    obtain rfl : channel = channel' := channels
    obtain rfl : rank = rank' := owners
    rfl

/-- The buffers of a process join the ranks of its P2P edges. -/
theorem wired (k fifoBytes : ℕ) (plan : Fin n → TransportKind) :
    Wired (Allocation.bytes k fifoBytes) (fun edge => plan edge = .p2p)
      (fun rank => plan rank = .p2p ∨ plan (incomingEdge rank) = .p2p)
      (localControlArgs k plan) where
  same := by
    intro kind edge channel
    rw [localControlArgs_send, localControlArgs_recv, Bootstrap.incomingEdge_receiver]
  joined := by
    intro kind edge channel used
    rw [localControlArgs_send, edgeCounter, if_pos used]
    rfl
  based := by
    intro side rank used
    rw [localControlArgs_base, localCounters, if_pos used]
    rfl
  placed := by
    refine Placed.of_slots wordBytes (fun word => .counters (ownerOf word))
      (fun word => rowOf word * k + channelOf word) ?_ ?_ ?_
    · rintro (⟨kind, edge, channel⟩ | ⟨side, rank, channel⟩) extent member
      · rw [ControlWord.cell, localControlArgs_send, edgeCounter] at member
        split at member
        · exact (Option.some.inj member).symm
        · cases member
      · rw [ControlWord.cell, localControlArgs_base, localCounters] at member
        split at member
        · simp only [Option.map_some, Pointer.index_index] at member
          exact (Option.some.inj member).symm
        · cases member
    · intro left right blocks slots
      obtain ⟨rows, channels⟩ :=
        Placement.row_column_unique (channelOf left).isLt (channelOf right).isLt slots
      exact word_unique rows (Fin.ext channels) (Allocation.counters.inj blocks)
    · intro word
      exact Nat.mul_le_mul_right wordBytes
        (Placement.row_column_lt (rowOf_lt word) (channelOf word).isLt)

end P2pStepCounters

/-! ### All layouts -/

/-- In each of the three layouts a sender and its receiver find the same counters, and no two words
share a byte; nor do the counters and FIFOs of one connection region. -/
theorem controlWords_wired (n k fifoBytes : ℕ) :
    (∀ edge : Fin n, Placed (fun _ => kConnectionRegionBytes k fifoBytes)
      fun part : RegionPart k => some (part.extent fifoBytes ⟨edge, 0⟩)) ∧
    (∀ edgeKinds : Fin n → TransportKind, ∃ views : Fin n → SimpleConnectionView k (Allocation n),
      (∀ rank, transportConnections k fifoBytes edgeKinds rank = .ok (views rank)) ∧
      (∀ edge channel, (views edge).sendFifo channel = (views (receiver edge)).recvFifo channel) ∧
      Wired (Allocation.bytes k fifoBytes)
        (fun edge => edgeKinds edge = .shm ∨ edgeKinds edge = .p2p) (fun _ => True)
        fun rank => mpiControlArgs (views rank) rank) ∧
    (∀ process : Fin n,
      Wired (Allocation.bytes k fifoBytes) (fun _ => True) (fun _ => True)
        (makeSimpleControlArgs (n := n) k ⟨.steps process, 0⟩ ⟨.baseSteps process, 0⟩)) ∧
    ∀ (plan : Fin n → TransportKind) (topology : ProcessTopology),
      topology.validate n = .ok () → topology.distributed = false →
        ∃ steps, P2pStepCounters.create plan topology = .ok steps ∧
          ∃ control, (∀ rank, steps.controlArgs k rank = some (control rank)) ∧
            Wired (Allocation.bytes k fifoBytes) (fun edge => plan edge = .p2p)
              (fun rank => plan rank = .p2p ∨ plan (incomingEdge rank) = .p2p) control := by
  refine ⟨fun edge => region_placed k fifoBytes edge, mpiControlArgs_wired k fifoBytes,
    makeSimpleControlArgs_wired fifoBytes, ?_⟩
  intro plan topology valid single
  exact ⟨_, P2pStepCounters.create_eq valid single, _, P2pStepCounters.controlArgs_eq k plan,
    P2pStepCounters.wired k fifoBytes plan⟩

/-- Four ranks of one process, over P2P and shared memory in turn. -/
def mixedPlan (edge : Fin 4) : TransportKind := if edge.val % 2 = 0 then .p2p else .shm

def mixedProcess : ProcessTopology where
  globalRankCount := 4
  localRankOffset := 0
  devices := [0, 1, 2, 3]
  edgeKinds := [.p2p, .shm, .p2p, .shm]
  distributed := false

theorem controlWords_wired_mixed :
    ∃ steps, P2pStepCounters.create mixedPlan mixedProcess = .ok steps ∧
      ∃ control, (∀ rank, steps.controlArgs 2 rank = some (control rank)) ∧
        Wired (Allocation.bytes 2 4096) (fun edge => mixedPlan edge = .p2p)
          (fun rank => mixedPlan rank = .p2p ∨ mixedPlan (incomingEdge rank) = .p2p) control :=
  (controlWords_wired 4 2 4096).2.2.2 mixedPlan mixedProcess (by decide) rfl

end Transport
end NanoNccl
