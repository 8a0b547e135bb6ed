import Mathlib.Data.List.FinRange
import NanoNccl.Bootstrap.Topology
import NanoNccl.Lib.Placement

/-!
# Connection regions

A ring edge between two processes over shared memory or CUDA IPC has one region, which its receiver
creates and its sender opens: the head counters of all channels, their tail counters, and behind
them a FIFO for each channel. Sizes are exact, as for a build whose constants fit their types.
-/

namespace NanoNccl
namespace Transport

open Bootstrap (TransportKind receiver incomingEdge)
open Placement (Pointer Extent Placed)

variable {β : Type} {k : ℕ}

/-! ### The layout of a region -/

/-- `sizeof(std::uint64_t)` -/
def wordBytes : ℕ := 8

def kConnectionControlBytes (kChannels : ℕ) : ℕ := 2 * kChannels * wordBytes

def kConnectionDataOffset (kChannels : ℕ) : ℕ :=
  (kConnectionControlBytes kChannels + 255) / 256 * 256

def kConnectionRegionBytes (kChannels fifoBytes : ℕ) : ℕ :=
  kConnectionDataOffset kChannels + kChannels * fifoBytes

def connectionHead (region : Pointer β) (channel : ℕ) : Pointer β := region.index wordBytes channel

def connectionTail (kChannels : ℕ) (region : Pointer β) (channel : ℕ) : Pointer β :=
  (region.index wordBytes kChannels).index wordBytes channel

def connectionFifo (kChannels fifoBytes : ℕ) (region : Pointer β) (channel : ℕ) : Pointer β :=
  (region.index 1 (kConnectionDataOffset kChannels)).index 1 (channel * fifoBytes)

/-- What a region holds for its channels. -/
inductive RegionPart (k : ℕ)
  | head (channel : Fin k)
  | tail (channel : Fin k)
  | fifo (channel : Fin k)
  deriving DecidableEq, Repr

/-- The bytes of a part of a region. -/
def RegionPart.extent (fifoBytes : ℕ) (region : Pointer β) : RegionPart k → Extent β
  | .head channel => ⟨connectionHead region channel, wordBytes⟩
  | .tail channel => ⟨connectionTail k region channel, wordBytes⟩
  | .fifo channel => ⟨connectionFifo k fifoBytes region channel, fifoBytes⟩

theorem counters_le_dataOffset (kChannels : ℕ) :
    kChannels * wordBytes + kChannels * wordBytes ≤ kConnectionDataOffset kChannels := by
  unfold kConnectionDataOffset kConnectionControlBytes
  rw [Nat.mul_assoc, Nat.two_mul]
  omega

/-- Where the heads, the tails and the FIFOs of a region begin and end. -/
def RegionPart.bounds (fifoBytes : ℕ) : RegionPart k → ℕ × ℕ
  | .head _ => (0, k * wordBytes)
  | .tail _ => (k * wordBytes, kConnectionDataOffset k)
  | .fifo _ => (kConnectionDataOffset k, kConnectionRegionBytes k fifoBytes)

theorem RegionPart.extent_bounds (fifoBytes : ℕ) (block : β) (part : RegionPart k) :
    (part.bounds fifoBytes).1 ≤ (part.extent fifoBytes ⟨block, 0⟩).start.offset ∧
      (part.extent fifoBytes ⟨block, 0⟩).start.offset + (part.extent fifoBytes ⟨block, 0⟩).length ≤
        (part.bounds fifoBytes).2 := by
  have data := counters_le_dataOffset k
  have entry (channel : Fin k) (width : ℕ) : channel * width + width ≤ k * width := by
    have below := Nat.mul_le_mul_right width (Nat.succ_le_of_lt channel.isLt)
    rwa [Nat.succ_mul] at below
  cases part with
  | head channel =>
      have inside := entry channel wordBytes
      simp only [bounds, extent, connectionHead, Pointer.index]
      omega
  | tail channel =>
      have inside := entry channel wordBytes
      simp only [bounds, extent, connectionTail, Pointer.index]
      omega
  | fifo channel =>
      have inside := entry channel fifoBytes
      simp only [bounds, extent, connectionFifo, Pointer.index, kConnectionRegionBytes]
      omega

/-- The counters and FIFOs of a region share no byte, and the region holds them all. -/
theorem region_placed (kChannels fifoBytes : ℕ) (block : β) :
    Placed (fun _ => kConnectionRegionBytes kChannels fifoBytes)
      fun part : RegionPart kChannels => some (part.extent fifoBytes ⟨block, 0⟩) where
  apart := by
    rintro left right distinct first ⟨⟩ second ⟨⟩
    have first_bounds := left.extent_bounds fifoBytes block
    have second_bounds := right.extent_bounds fifoBytes block
    have zones : kChannels * wordBytes ≤ kConnectionDataOffset kChannels :=
      (Nat.le_add_right _ _).trans (counters_le_dataOffset kChannels)
    -- Parts of one kind are slots of one table; parts of two kinds lie in different zones.
    cases left with
    | head channel =>
        cases right with
        | head other =>
            exact Extent.apart_of_ne _ _ fun same => distinct (congrArg _ (Fin.ext same))
        | tail other => exact fun _ => .inl (first_bounds.2.trans second_bounds.1)
        | fifo other => exact fun _ => .inl ((first_bounds.2.trans zones).trans second_bounds.1)
    | tail channel =>
        cases right with
        | head other => exact fun _ => .inr (second_bounds.2.trans first_bounds.1)
        | tail other =>
            exact Extent.apart_of_ne _ _ fun same => distinct (congrArg _ (Fin.ext same))
        | fifo other => exact fun _ => .inl (first_bounds.2.trans second_bounds.1)
    | fifo channel =>
        cases right with
        | head other => exact fun _ => .inr ((second_bounds.2.trans zones).trans first_bounds.1)
        | tail other => exact fun _ => .inr (second_bounds.2.trans first_bounds.1)
        | fifo other =>
            have slots := Extent.apart_of_ne ⟨block, kConnectionDataOffset kChannels⟩ fifoBytes
              fun same => distinct (congrArg _ (Fin.ext same))
            simpa [RegionPart.extent, connectionFifo, Pointer.index] using slots
  inside := by
    rintro part extent ⟨⟩
    have within := (part.extent_bounds fifoBytes block).2
    have data := counters_le_dataOffset kChannels
    refine within.trans ?_
    cases part <;> simp only [RegionPart.bounds, kConnectionRegionBytes] <;> omega

/-! ### Views of a ring -/

/-- `SimpleConnectionView`; a null pointer is `none`. -/
structure SimpleConnectionView (k : ℕ) (β : Type) where
  sendFifo : Fin k → Option (Pointer β)
  recvFifo : Fin k → Option (Pointer β)
  sendHead : Fin k → Option (Pointer β)
  sendTail : Fin k → Option (Pointer β)
  recvHead : Fin k → Option (Pointer β)
  recvTail : Fin k → Option (Pointer β)

/-- The view of a rank that receives through one region and sends through another, as far as it has
them. -/
def SimpleConnectionView.ofRegions (k fifoBytes : ℕ) (incoming outgoing : Option (Pointer β)) :
    SimpleConnectionView k β where
  sendFifo channel := outgoing.map (connectionFifo k fifoBytes · channel)
  recvFifo channel := incoming.map (connectionFifo k fifoBytes · channel)
  sendHead channel := outgoing.map (connectionHead · channel)
  sendTail channel := outgoing.map (connectionTail k · channel)
  recvHead channel := incoming.map (connectionHead · channel)
  recvTail channel := incoming.map (connectionTail k · channel)

/-- The connections two transports have both published for a channel. -/
def mergeConflict (destination source : SimpleConnectionView k β) (channel : Fin k) :
    Option String :=
  if (source.sendFifo channel).isSome ∧ (destination.sendFifo channel).isSome then
    some "multiple transports published one Simple send connection"
  else if (source.recvFifo channel).isSome ∧ (destination.recvFifo channel).isSome then
    some "multiple transports published one Simple receive connection"
  else none

/-- `merge_connection_resources` -/
def mergeConnectionResources (destination source : SimpleConnectionView k β) :
    Except String (SimpleConnectionView k β) :=
  match (List.finRange k).findSome? (mergeConflict destination source) with
  | some message => .error message
  | none =>
      let sends channel := (source.sendFifo channel).isSome
      let recvs channel := (source.recvFifo channel).isSome
      .ok {
        sendFifo := fun c => if sends c then source.sendFifo c else destination.sendFifo c
        sendHead := fun c => if sends c then source.sendHead c else destination.sendHead c
        sendTail := fun c => if sends c then source.sendTail c else destination.sendTail c
        recvFifo := fun c => if recvs c then source.recvFifo c else destination.recvFifo c
        recvHead := fun c => if recvs c then source.recvHead c else destination.recvHead c
        recvTail := fun c => if recvs c then source.recvTail c else destination.recvTail c }

/-- Memory with counters of a ring of `n` ranks. -/
inductive Allocation (n : ℕ)
  /-- The connection region that a rank has created. -/
  | region (kind : TransportKind) (rank : Fin n)
  /-- `simple_fifo_steps_` of the process that owns a rank. -/
  | steps (process : Fin n)
  /-- `simple_fifo_base_steps_` of the process that owns a rank. -/
  | baseSteps (process : Fin n)
  /-- `counters_` of a rank. -/
  | counters (rank : Fin n)
  deriving DecidableEq, Repr

section Mpi

variable {n : ℕ} (k fifoBytes : ℕ) (edgeKinds : Fin n → TransportKind)

/-- The region a rank with an incoming edge of the kind creates, and whose name or handle all ranks
gather. -/
def publishedRegion (kind : TransportKind) (rank : Fin n) : Option (Pointer (Allocation n)) :=
  if edgeKinds (incomingEdge rank) = kind then some ⟨.region kind rank, 0⟩ else none

/-- The connections of a kind that a rank makes, once all calls have succeeded on all ranks. -/
def createMpiConnections (kind : TransportKind) (unpublished : String) (rank : Fin n) :
    Except String (SimpleConnectionView k (Allocation n)) :=
  if ∃ edge, edgeKinds edge = kind then
    let incoming := publishedRegion edgeKinds kind rank
    if edgeKinds rank = kind then
      match publishedRegion edgeKinds kind (receiver rank) with
      | none => .error unpublished
      | some outgoing => .ok (.ofRegions k fifoBytes incoming (some outgoing))
    else .ok (.ofRegions k fifoBytes incoming none)
  else .ok (.ofRegions k fifoBytes none none)

/-- `create_mpi_shm_connections` -/
def createMpiShmConnections : Fin n → Except String (SimpleConnectionView k (Allocation n)) :=
  createMpiConnections k fifoBytes edgeKinds .shm "SHM receiver did not publish its Ring region"

/-- `create_mpi_p2p_connections` -/
def createMpiP2pConnections : Fin n → Except String (SimpleConnectionView k (Allocation n)) :=
  createMpiConnections k fifoBytes edgeKinds .p2p "CUDA IPC receiver did not publish close control"

/-- `transport_connections` in `create_communicator_from_mpi`. -/
def transportConnections (rank : Fin n) :
    Except String (SimpleConnectionView k (Allocation n)) := do
  let shm ← createMpiShmConnections k fifoBytes edgeKinds rank
  let connections ← mergeConnectionResources (.ofRegions k fifoBytes none none) shm
  let p2p ← createMpiP2pConnections k fifoBytes edgeKinds rank
  mergeConnectionResources connections p2p

/-- The region a rank receives through when its incoming edge stays on one host. -/
def ringRegion (rank : Fin n) : Option (Pointer (Allocation n)) :=
  if edgeKinds (incomingEdge rank) = .shm ∨ edgeKinds (incomingEdge rank) = .p2p then
    some ⟨.region (edgeKinds (incomingEdge rank)) rank, 0⟩
  else none

variable {k fifoBytes edgeKinds}

/-- A rank receives through the region it has published and sends through that of the next rank. -/
theorem createMpiConnections_eq (kind : TransportKind) (unpublished : String) (rank : Fin n) :
    createMpiConnections k fifoBytes edgeKinds kind unpublished rank =
      .ok (.ofRegions k fifoBytes (publishedRegion edgeKinds kind rank)
        (publishedRegion edgeKinds kind (receiver rank))) := by
  unfold createMpiConnections publishedRegion
  rw [Bootstrap.incomingEdge_receiver]
  by_cases used : ∃ edge, edgeKinds edge = kind
  · rw [if_pos used]
    by_cases outgoing : edgeKinds rank = kind
    · simp only [if_pos outgoing]
    · simp only [if_neg outgoing]
  · rw [if_neg used]
    rw [if_neg fun incoming => used ⟨_, incoming⟩, if_neg fun outgoing => used ⟨_, outgoing⟩]

/-- An edge has one kind. -/
theorem publishedRegion_unique (edgeKinds : Fin n → TransportKind) (rank : Fin n) :
    publishedRegion edgeKinds .shm rank = none ∨ publishedRegion edgeKinds .p2p rank = none := by
  unfold publishedRegion
  cases edgeKinds (incomingEdge rank) <;> simp

theorem publishedRegion_or (rank : Fin n) :
    (publishedRegion edgeKinds .p2p rank).or (publishedRegion edgeKinds .shm rank) =
      ringRegion edgeKinds rank := by
  unfold publishedRegion ringRegion
  cases edgeKinds (incomingEdge rank) <;> simp

/-- Views of different regions merge. -/
theorem mergeConnectionResources_ofRegions (k fifoBytes : ℕ)
    {incoming outgoing later_in later_out : Option (Pointer β)}
    (one_in : incoming = none ∨ later_in = none) (one_out : outgoing = none ∨ later_out = none) :
    mergeConnectionResources (.ofRegions k fifoBytes incoming outgoing)
        (.ofRegions k fifoBytes later_in later_out) =
      .ok (.ofRegions k fifoBytes (later_in.or incoming) (later_out.or outgoing)) := by
  have compatible : (List.finRange k).findSome? (mergeConflict
      (.ofRegions k fifoBytes incoming outgoing) (.ofRegions k fifoBytes later_in later_out)) =
      none := by
    rw [List.findSome?_eq_none_iff]
    intro channel _
    simp only [mergeConflict, SimpleConnectionView.ofRegions, Option.isSome_map]
    rcases one_in with rfl | rfl <;> rcases one_out with rfl | rfl <;> simp
  unfold mergeConnectionResources
  rw [compatible]
  refine congrArg Except.ok ?_
  cases later_in <;> cases later_out <;> simp [SimpleConnectionView.ofRegions]

/-- The connections of a rank are the regions of its two edges. -/
theorem transportConnections_eq (rank : Fin n) :
    transportConnections k fifoBytes edgeKinds rank =
      .ok (.ofRegions k fifoBytes (ringRegion edgeKinds rank)
        (ringRegion edgeKinds (receiver rank))) := by
  unfold transportConnections createMpiShmConnections createMpiP2pConnections
  rw [createMpiConnections_eq, createMpiConnections_eq]
  have merged := mergeConnectionResources_ofRegions k fifoBytes
    (publishedRegion_unique edgeKinds rank) (publishedRegion_unique edgeKinds (receiver rank))
  rw [publishedRegion_or, publishedRegion_or] at merged
  simp only [bind, Except.bind]
  rw [mergeConnectionResources_ofRegions k fifoBytes (.inl rfl) (.inl rfl), Option.or_none,
    Option.or_none]
  exact merged

end Mpi

end Transport
end NanoNccl
