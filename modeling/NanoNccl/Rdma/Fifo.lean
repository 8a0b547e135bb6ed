import Mathlib.Logic.Function.Basic
import NanoNccl.Geometry
import NanoNccl.Lib.Memory
import NanoNccl.Lib.Numbered

/-!
# The FIFOs at the two ends of an RDMA edge

The producing kernel shares a send FIFO with the send proxy, the consuming kernel a receive FIFO
with the receive proxy. Both FIFOs have the same geometry; a slice takes `step_increment` steps and
lies in the slot of its first step. The counters are 64 bits wide and only count steps, so they do
not wrap and are modelled by natural numbers.

Steps are numbered `base`, `base + step_increment`, ... from the value the counters have when the
proxies are constructed. The contracts below speak of slice numbers, not of steps.
-/

namespace NanoNccl.Rdma

/-- Geometry and placement of one edge, with what `validate_fifo` and `validate_cts_remote`
check. Both proxies of an edge are built with the same slot geometry, and the CTS FIFO has
`slot_count` slots. -/
structure Edge where
  /-- `slot_bytes`. -/
  slotBytes : ℕ
  /-- `slot_count`. -/
  slotCount : ℕ
  /-- `step_increment`. -/
  stepIncrement : ℕ
  /-- Address of the send FIFO. -/
  sendData : ℕ
  /-- Address of the receive FIFO, also `local_recv_fifo_addr`. -/
  recvData : ℕ
  /-- `local_recv_fifo_rkey`. -/
  recvRkey : ℕ
  /-- The queue pair takes a CTS slot as inline data. -/
  inlineCts : Bool
  /-- Value of the four counters when the proxies are constructed. -/
  base : ℕ
  slotBytes_pos : 0 < slotBytes
  slotCount_pos : 0 < slotCount
  stepIncrement_pos : 0 < stepIncrement
  divides : slotCount % stepIncrement = 0
  fits : slotCount ≤ (2 ^ 64 - 1) / slotBytes
  sendData_ne : sendData ≠ 0
  recvData_ne : recvData ≠ 0

namespace Edge

variable (edge : Edge)

/-- `max_inflight_`. -/
def maxInflight : ℕ := edge.slotCount / edge.stepIncrement

/-- First step of the `k`-th slice. -/
def step (k : ℕ) : ℕ := edge.base + edge.stepIncrement * k

/-- Slot of a step. -/
def slot (step : ℕ) : ℕ := step % edge.slotCount

/-- Address of a slot of the send FIFO. -/
def sendAddr (slot : ℕ) : ℕ := edge.sendData + slot * edge.slotBytes

/-- Address of a slot of the receive FIFO. -/
def recvAddr (slot : ℕ) : ℕ := edge.recvData + slot * edge.slotBytes

theorem slotCount_eq : edge.slotCount = edge.stepIncrement * edge.maxInflight :=
  (Nat.mul_div_cancel' (Nat.dvd_of_mod_eq_zero edge.divides)).symm

@[simp] theorem step_zero : edge.step 0 = edge.base := by simp [step]

theorem step_succ (k : ℕ) : edge.step k + edge.stepIncrement = edge.step (k + 1) := by
  unfold step
  ring

theorem step_add_slotCount (k : ℕ) :
    edge.step k + edge.slotCount = edge.step (k + edge.maxInflight) := by
  rw [edge.slotCount_eq]
  unfold step
  ring

theorem step_strictMono : StrictMono edge.step := by
  intro first second before
  exact Nat.add_lt_add_left (Nat.mul_lt_mul_of_pos_left before edge.stepIncrement_pos) edge.base

@[simp] theorem step_lt_step {first second : ℕ} :
    edge.step first < edge.step second ↔ first < second :=
  edge.step_strictMono.lt_iff_lt

@[simp] theorem step_le_step {first second : ℕ} :
    edge.step first ≤ edge.step second ↔ first ≤ second :=
  edge.step_strictMono.le_iff_le

@[simp] theorem step_inj {first second : ℕ} : edge.step first = edge.step second ↔ first = second :=
  edge.step_strictMono.injective.eq_iff

/-- The credit test of both proxies, in slices. -/
theorem credit_iff (next released : ℕ) :
    edge.step next + edge.stepIncrement ≤ edge.step released + edge.slotCount ↔
      next < released + edge.maxInflight := by
  rw [step_succ, step_add_slotCount, step_le_step]
  exact Nat.succ_le_iff

/-- Slices of one window of the FIFO have different slots. -/
theorem slot_ne (low : ℕ) {first second : ℕ} (distinct : first ≠ second) (first_low : low ≤ first)
    (first_high : first < low + edge.maxInflight) (second_low : low ≤ second)
    (second_high : second < low + edge.maxInflight) :
    edge.slot (edge.step first) ≠ edge.slot (edge.step second) := by
  apply Memory.mod_ne_of_window (edge.step low)
  · simpa using distinct
  · simpa using first_low
  · simpa [step_add_slotCount] using first_high
  · simpa using second_low
  · simpa [step_add_slotCount] using second_high

/-- Slices one window apart share their slot. -/
theorem slot_add_maxInflight (k : ℕ) :
    edge.slot (edge.step (k + edge.maxInflight)) = edge.slot (edge.step k) := by
  rw [← step_add_slotCount]
  exact Nat.add_mod_right _ _

/-- Data of one slot does not reach into another. -/
theorem slots_apart (data : ℕ) {left right : ℕ} (distinct : left ≠ right) {first second : ℕ}
    (first_fits : first ≤ edge.slotBytes) (second_fits : second ≤ edge.slotBytes) :
    (data + left * edge.slotBytes) + first ≤ data + right * edge.slotBytes ∨
      (data + right * edge.slotBytes) + second ≤ data + left * edge.slotBytes := by
  have second_inside : 0 + second ≤ edge.slotBytes := by rwa [Nat.zero_add]
  exact Memory.slots_apart data distinct first_fits second_inside

end Edge

/-- The edge the communicator sets up, with its FIFOs at two fixed addresses. -/
def communicatorEdge : Edge where
  slotBytes := kFifoBytes / kFifoSteps
  slotCount := kFifoSteps
  stepIncrement := kSliceSteps
  sendData := 4096
  recvData := 8192
  recvRkey := 1
  inlineCts := true
  base := 0
  slotBytes_pos := by decide
  slotCount_pos := by decide
  stepIncrement_pos := by decide
  divides := by decide
  fits := by decide
  sendData_ne := by decide
  recvData_ne := by decide

/-- A payload the producer may publish: its size is a nonzero 32-bit number within the slot. -/
def Edge.Publishable (edge : Edge) (payload : List UInt8) : Prop :=
  1 ≤ payload.length ∧ payload.length ≤ edge.slotBytes ∧ payload.length < 2 ^ 32

instance (edge : Edge) (payload : List UInt8) : Decidable (edge.Publishable payload) :=
  inferInstanceAs (Decidable (_ ∧ _))

/-! ### The send FIFO -/

/-- The send FIFO and its producer. -/
structure SendFifo where
  /-- Memory, by address. -/
  data : ℕ → UInt8
  /-- `slot_sizes`. -/
  sizes : ℕ → ℕ
  /-- `send_head`. -/
  head : ℕ
  /-- `send_tail`. -/
  tail : ℕ
  /-- Slice written to its slot whose tail is not stored yet. -/
  staged : Option (List UInt8)
  /-- Slices published, oldest first. -/
  published : List (List UInt8)

namespace SendFifo

variable (edge : Edge) (fifo : SendFifo)

/-- A send FIFO before its first slice. -/
def fresh : SendFifo where
  data := fun _ => 0
  sizes := fun _ => 0
  head := edge.base
  tail := edge.base
  staged := none
  published := []

/-- The producer writes a slice and its size once `send_head` covers the slot. -/
def fill (payload : List UInt8) : Option SendFifo :=
  if fifo.staged = none ∧ edge.Publishable payload ∧
      fifo.tail + edge.stepIncrement ≤ fifo.head + edge.slotCount then
    some { fifo with
      data := Memory.writeBlock fifo.data (edge.sendAddr (edge.slot fifo.tail)) payload
      sizes := Function.update fifo.sizes (edge.slot fifo.tail) payload.length
      staged := some payload }
  else none

/-- The producer writes a slice and its size into the slot of `send_tail`, whether `send_head`
covers it or not. -/
def write (payload : List UInt8) : SendFifo :=
  { fifo with
    data := Memory.writeBlock fifo.data (edge.sendAddr (edge.slot fifo.tail)) payload
    sizes := Function.update fifo.sizes (edge.slot fifo.tail) payload.length
    staged := some payload }

/-- The producer stores `send_tail`. -/
def publish : Option SendFifo :=
  match fifo.staged with
  | none => none
  | some payload =>
      some { fifo with
        tail := fifo.tail + edge.stepIncrement
        staged := none
        published := fifo.published ++ [payload] }

/-- The slot of the `k`-th slice holds it. -/
def Stored (k : ℕ) (payload : List UInt8) : Prop :=
  fifo.sizes (edge.slot (edge.step k)) = payload.length ∧
    Memory.block fifo.data (edge.sendAddr (edge.slot (edge.step k))) payload.length = payload

/-- Contract of the send FIFO when `completed` slices are released by `send_head`. -/
structure Holds (completed : ℕ) : Prop where
  head : fifo.head = edge.step completed
  tail : fifo.tail = edge.step fifo.published.length
  completed_le : completed ≤ fifo.published.length
  bound : fifo.published.length ≤ completed + edge.maxInflight
  publishable : ∀ payload ∈ fifo.published, edge.Publishable payload
  stored : ∀ k payload, completed ≤ k → fifo.published[k]? = some payload →
    fifo.Stored edge k payload
  staged : ∀ payload, fifo.staged = some payload →
    edge.Publishable payload ∧ fifo.published.length < completed + edge.maxInflight ∧
      fifo.Stored edge fifo.published.length payload

end SendFifo

theorem SendFifo.fresh_holds (edge : Edge) : (SendFifo.fresh edge).Holds edge 0 where
  head := by simp [fresh]
  tail := by simp [fresh]
  completed_le := by simp [fresh]
  bound := by simp [fresh]
  publishable := by simp [fresh]
  stored := by simp [fresh]
  staged := by simp [fresh]

namespace SendFifo.Holds

variable {edge : Edge} {fifo next : SendFifo} {completed : ℕ}

theorem fill (holds : fifo.Holds edge completed) {payload : List UInt8}
    (step : fifo.fill edge payload = some next) :
    next.Holds edge completed ∧ next.published = fifo.published ∧ next.head = fifo.head := by
  unfold SendFifo.fill at step
  split_ifs at step with guard
  obtain ⟨idle, publishable, credit⟩ := guard
  obtain rfl := Option.some.inj step
  rw [holds.head, holds.tail, edge.credit_iff] at credit
  refine ⟨?_, rfl, rfl⟩
  refine { holds with stored := ?_, staged := ?_ }
  · intro k slice released found
    obtain ⟨size, bytes⟩ := holds.stored k slice released found
    have inside : k < fifo.published.length := (List.getElem?_eq_some_iff.mp found).1
    have apart : edge.slot (edge.step k) ≠ edge.slot fifo.tail := by
      rw [holds.tail]
      exact edge.slot_ne completed inside.ne released (by omega) holds.completed_le credit
    have slice_fits := (holds.publishable slice (List.mem_of_getElem? found)).2.1
    refine ⟨?_, ?_⟩
    · rw [← size]
      exact Function.update_of_ne apart _ _
    · rw [Memory.block_writeBlock_apart]
      · exact bytes
      · exact edge.slots_apart edge.sendData apart slice_fits publishable.2.1
  · intro slice same
    obtain rfl : payload = slice := Option.some.inj same
    refine ⟨publishable, credit, ?_, ?_⟩
    · rw [← holds.tail]
      exact Function.update_self _ _ _
    · rw [← holds.tail]
      exact Memory.block_writeBlock _ _ _

theorem publish (holds : fifo.Holds edge completed) (step : fifo.publish edge = some next) :
    next.Holds edge completed ∧ fifo.published <+: next.published ∧ next.head = fifo.head := by
  unfold SendFifo.publish at step
  split at step
  · cases step
  case h_2 payload found =>
    obtain rfl := Option.some.inj step
    obtain ⟨publishable, room, stored⟩ := holds.staged payload found
    refine ⟨?_, List.prefix_append _ _, rfl⟩
    refine { head := holds.head, tail := ?_, completed_le := ?_, bound := ?_, publishable := ?_,
             stored := ?_, staged := ?_ }
    · simp only [List.length_append, List.length_singleton]
      rw [holds.tail, edge.step_succ]
    · simp only [List.length_append, List.length_singleton]
      have := holds.completed_le
      omega
    · simp only [List.length_append, List.length_singleton]
      omega
    · intro slice member
      rcases List.mem_append.mp member with old | new
      · exact holds.publishable slice old
      · rw [List.mem_singleton.mp new]
        exact publishable
    · intro k slice released at_k
      rcases Queue.getElem?_concat_eq_some_iff.mp at_k with old | ⟨rfl, rfl⟩
      · exact holds.stored k slice released old
      · exact stored
    · intro slice absurd
      cases absurd

/-- A release by `send_head` of slices already published. -/
theorem release (holds : fifo.Holds edge completed) {later : ℕ} (forward : completed ≤ later)
    (within : later ≤ fifo.published.length) :
    { fifo with head := edge.step later }.Holds edge later where
  head := rfl
  tail := holds.tail
  completed_le := within
  bound := by
    have := holds.bound
    show fifo.published.length ≤ later + edge.maxInflight
    omega
  publishable := holds.publishable
  stored := fun k payload released found => holds.stored k payload (forward.trans released) found
  staged := by
    intro payload found
    obtain ⟨publishable, room, stored⟩ := holds.staged payload found
    exact ⟨publishable, room.trans_le (by omega), stored⟩

/-- The size the send proxy loads for a published slice. -/
theorem size_eq (holds : fifo.Holds edge completed) {k : ℕ} {payload : List UInt8}
    (unreleased : completed ≤ k) (found : fifo.published[k]? = some payload) :
    fifo.sizes (edge.slot (edge.step k)) = payload.length :=
  (holds.stored k payload unreleased found).1

/-- A slice below the tail is published. -/
theorem exists_published (holds : fifo.Holds edge completed) {k : ℕ}
    (below : edge.step k < fifo.tail) : ∃ payload, fifo.published[k]? = some payload := by
  rw [holds.tail, edge.step_lt_step] at below
  exact ⟨_, List.getElem?_eq_getElem below⟩

end SendFifo.Holds

/-! ### The receive FIFO -/

/-- The receive FIFO and its consumer. -/
structure RecvFifo where
  /-- Memory, by address. -/
  data : ℕ → UInt8
  /-- `slot_sizes`. -/
  sizes : ℕ → ℕ
  /-- `recv_head`. -/
  head : ℕ
  /-- `recv_tail`. -/
  tail : ℕ
  /-- The consumer has read the slice at `recv_head` and not advanced it yet. -/
  reading : Bool
  /-- Slices read, oldest first. -/
  consumed : List (List UInt8)

namespace RecvFifo

variable (edge : Edge) (fifo : RecvFifo)

/-- A receive FIFO before its first slice. -/
def fresh : RecvFifo where
  data := fun _ => 0
  sizes := fun _ => 0
  head := edge.base
  tail := edge.base
  reading := false
  consumed := []

/-- The consumer reads the slice at `recv_head`. -/
def read : Option RecvFifo :=
  if fifo.reading = false ∧ fifo.head < fifo.tail then
    let slot := edge.slot fifo.head
    some { fifo with
      reading := true
      consumed := fifo.consumed ++ [Memory.block fifo.data (edge.recvAddr slot) (fifo.sizes slot)] }
  else none

/-- The consumer advances `recv_head` over the slice it has read. -/
def release : Option RecvFifo :=
  if fifo.reading = true then
    some { fifo with reading := false, head := fifo.head + edge.stepIncrement }
  else none

/-- The network places a slice in a slot. -/
def land (addr : ℕ) (payload : List UInt8) : RecvFifo :=
  { fifo with data := Memory.writeBlock fifo.data addr payload }

/-- The receive proxy stores the size of a slot. -/
def storeSize (slot size : ℕ) : RecvFifo :=
  { fifo with sizes := Function.update fifo.sizes slot size }

/-- Contract of the receive FIFO: `released` slices are released by `recv_head`, `tailed` are
published by `recv_tail`, `sized` have their size stored and `landed` have their data in place. -/
structure Holds (published : List (List UInt8)) (released tailed sized landed : ℕ) : Prop where
  head : fifo.head = edge.step released
  tail : fifo.tail = edge.step tailed
  released_le : released + fifo.reading.toNat ≤ tailed
  tailed_le : tailed ≤ sized
  sized_le : sized ≤ landed
  bound : landed ≤ released + edge.maxInflight
  landed_le : landed ≤ published.length
  consumed : fifo.consumed = published.take (released + fifo.reading.toNat)
  bytes : ∀ k payload, released ≤ k → k < landed → published[k]? = some payload →
    Memory.block fifo.data (edge.recvAddr (edge.slot (edge.step k))) payload.length = payload
  sizes : ∀ k payload, released ≤ k → k < sized → published[k]? = some payload →
    fifo.sizes (edge.slot (edge.step k)) = payload.length

end RecvFifo

theorem RecvFifo.fresh_holds (edge : Edge) : (RecvFifo.fresh edge).Holds edge [] 0 0 0 0 where
  head := by simp [fresh]
  tail := by simp [fresh]
  released_le := by simp [fresh]
  tailed_le := le_rfl
  sized_le := le_rfl
  bound := Nat.zero_le _
  landed_le := le_rfl
  consumed := rfl
  bytes := by simp
  sizes := by simp

namespace RecvFifo.Holds

variable {edge : Edge} {fifo next : RecvFifo} {published : List (List UInt8)}
  {released tailed sized landed : ℕ}

/-- What the consumer has read is a prefix of what the producer has published. -/
theorem consumed_prefix (holds : fifo.Holds edge published released tailed sized landed) :
    fifo.consumed <+: published := by
  rw [holds.consumed]
  exact List.take_prefix _ _

/-- The producer's further slices do not matter to the receive FIFO. -/
theorem extend (holds : fifo.Holds edge published released tailed sized landed)
    {more : List (List UInt8)} (extends_published : published <+: more) :
    fifo.Holds edge more released tailed sized landed := by
  obtain ⟨rest, rfl⟩ := extends_published
  have small := holds.landed_le
  refine { holds with landed_le := ?_, consumed := ?_, bytes := ?_, sizes := ?_ }
  · simp only [List.length_append]
    omega
  · rw [holds.consumed, List.take_append_of_le_length]
    have := holds.released_le
    have := holds.tailed_le
    have := holds.sized_le
    omega
  · intro k payload low high found
    rw [List.getElem?_append_left (high.trans_le small)] at found
    exact holds.bytes k payload low high found
  · intro k payload low high found
    rw [List.getElem?_append_left (high.trans_le (holds.sized_le.trans small))] at found
    exact holds.sizes k payload low high found

theorem read (holds : fifo.Holds edge published released tailed sized landed)
    (step : fifo.read edge = some next) :
    next.Holds edge published released tailed sized landed ∧ next.head = fifo.head := by
  unfold RecvFifo.read at step
  split_ifs at step with guard
  obtain ⟨idle, below⟩ := guard
  obtain rfl := Option.some.inj step
  rw [holds.head, holds.tail, edge.step_lt_step] at below
  have published_length := holds.landed_le
  have tailed_le := holds.tailed_le
  have sized_le := holds.sized_le
  have found : published[released]? = some published[released] :=
    List.getElem?_eq_getElem (by omega)
  have size := holds.sizes released _ le_rfl (by omega) found
  have bytes := holds.bytes released _ le_rfl (by omega) found
  refine ⟨{ holds with released_le := ?_, consumed := ?_ }, rfl⟩
  · exact below
  · show fifo.consumed ++ _ = published.take (released + 1)
    rw [holds.consumed, idle, holds.head, size, bytes, List.take_succ_eq_append_getElem]
    rfl

theorem release (holds : fifo.Holds edge published released tailed sized landed)
    (step : fifo.release edge = some next) :
    next.Holds edge published (released + 1) tailed sized landed := by
  unfold RecvFifo.release at step
  split_ifs at step with busy
  obtain rfl := Option.some.inj step
  have room := holds.released_le
  have consumed := holds.consumed
  simp only [busy, Bool.toNat_true] at room consumed
  refine { tail := holds.tail, tailed_le := holds.tailed_le, sized_le := holds.sized_le,
           landed_le := holds.landed_le, consumed := consumed, head := ?_, released_le := room,
           bound := ?_, bytes := ?_, sizes := ?_ }
  · show fifo.head + edge.stepIncrement = edge.step (released + 1)
    rw [holds.head, edge.step_succ]
  · have := holds.bound
    omega
  · intro k payload low high found
    exact holds.bytes k payload (by omega) high found
  · intro k payload low high found
    exact holds.sizes k payload (by omega) high found

/-- The next slice lands in its own slot. -/
theorem land (holds : fifo.Holds edge published released tailed sized landed)
    (room : landed < released + edge.maxInflight) {payload : List UInt8}
    (publishable : ∀ slice ∈ published, edge.Publishable slice)
    (found : published[landed]? = some payload) :
    (fifo.land (edge.recvAddr (edge.slot (edge.step landed))) payload).Holds edge published
      released tailed sized (landed + 1) := by
  have inside : landed < published.length := (List.getElem?_eq_some_iff.mp found).1
  have payload_fits := (publishable payload (List.mem_of_getElem? found)).2.1
  refine { holds with sized_le := ?_, bound := room, landed_le := inside, bytes := ?_ }
  · exact holds.sized_le.trans (Nat.le_succ _)
  · intro k slice low high at_k
    unfold RecvFifo.land
    rcases Nat.lt_succ_iff_lt_or_eq.mp high with below | rfl
    · have apart : edge.slot (edge.step k) ≠ edge.slot (edge.step landed) :=
        edge.slot_ne released below.ne low (by omega) (by omega) room
      have slice_fits := (publishable slice (List.mem_of_getElem? at_k)).2.1
      rw [Memory.block_writeBlock_apart]
      · exact holds.bytes k slice low below at_k
      · exact edge.slots_apart edge.recvData apart slice_fits payload_fits
    · obtain rfl : payload = slice := Option.some.inj (found.symm.trans at_k)
      exact Memory.block_writeBlock _ _ _

/-- The size of the next landed slice is stored. -/
theorem storeSize (holds : fifo.Holds edge published released tailed sized landed)
    (pending : sized < landed) {payload : List UInt8} (found : published[sized]? = some payload) :
    (fifo.storeSize (edge.slot (edge.step sized)) payload.length).Holds edge published
      released tailed (sized + 1) landed := by
  have bound := holds.bound
  refine { holds with tailed_le := ?_, sized_le := pending, sizes := ?_ }
  · exact holds.tailed_le.trans (Nat.le_succ _)
  · intro k slice low high at_k
    unfold RecvFifo.storeSize
    rcases Nat.lt_succ_iff_lt_or_eq.mp high with below | rfl
    · have apart : edge.slot (edge.step k) ≠ edge.slot (edge.step sized) :=
        edge.slot_ne released below.ne low (by omega) (by omega) (by omega)
      exact (Function.update_of_ne apart _ _).trans (holds.sizes k slice low below at_k)
    · obtain rfl : payload = slice := Option.some.inj (found.symm.trans at_k)
      exact Function.update_self _ _ _

/-- `recv_tail` is stored over a slice whose size is in place. -/
theorem publishTail (holds : fifo.Holds edge published released tailed sized landed)
    (ready : tailed < sized) :
    { fifo with tail := edge.step (tailed + 1) }.Holds edge published
      released (tailed + 1) sized landed :=
  { holds with
    tail := rfl
    released_le := holds.released_le.trans (Nat.le_succ _)
    tailed_le := ready }

end RecvFifo.Holds

end NanoNccl.Rdma
