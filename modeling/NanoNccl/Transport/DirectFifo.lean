import NanoNccl.Geometry
import NanoNccl.Lib.Memory
import NanoNccl.Lib.Numbered
import NanoNccl.Lib.Pipe

/-!
# Direct edges

On a shared-memory or peer-to-peer edge both kernels work on one FIFO in memory both can address,
and nothing moves between them but the two counters. The producer writes a slot and stores `tail`;
the consumer waits for `tail`, reads the slot and stores `head`. As a line the edge is safe while
the producer only writes slots for which `head` leaves room, which is what `fill` does.
-/

namespace NanoNccl.Direct

/-- Slices a FIFO holds. -/
def slices : ℕ := kFifoSteps / kSliceSteps

/-- First byte of the slot of a step, with slots of `slotBytes` bytes. -/
def addr (slotBytes step : ℕ) : ℕ := step % kFifoSteps * slotBytes

/-- First step of the `k`-th slice on an edge whose counters start at `base`. -/
def step (base k : ℕ) : ℕ := base + kSliceSteps * k

/-- The FIFO of an edge with its two counters and what the two kernels have done with it. -/
structure Fifo where
  /-- Memory, by byte. -/
  data : ℕ → UInt8
  /-- Counter of the consumer. -/
  head : ℕ
  /-- Counter of the producer. -/
  tail : ℕ
  /-- Slice written to its slot whose tail is not stored yet. -/
  staged : Option (List UInt8)
  /-- Slices published, oldest first. -/
  published : List (List UInt8)
  /-- Number of slices the consumer has found. -/
  taken : ℕ
  /-- The consumer has not stored `head` over the slice found last. -/
  reading : Bool

namespace Fifo

variable (slotBytes : ℕ) (fifo : Fifo)

/-- Drained: both counters agree. -/
def fresh (base : ℕ) : Fifo where
  data := fun _ => 0
  head := base
  tail := base
  staged := none
  published := []
  taken := 0
  reading := false

/-- The producer writes a slice into a slot that `head` covers. -/
def fill (payload : List UInt8) : Option Fifo :=
  if fifo.staged = none ∧ payload.length ≤ slotBytes ∧
      fifo.tail + kSliceSteps ≤ fifo.head + kFifoSteps then
    some { fifo with
      data := Memory.writeBlock fifo.data (addr slotBytes fifo.tail) payload
      staged := some payload }
  else none

/-- The producer writes a slice into the slot of its tail, whether `head` covers it or not. -/
def write (payload : List UInt8) : Option Fifo :=
  if fifo.staged = none ∧ payload.length ≤ slotBytes then
    some { fifo with
      data := Memory.writeBlock fifo.data (addr slotBytes fifo.tail) payload
      staged := some payload }
  else none

/-- The producer stores `tail`. -/
def publish : Option Fifo :=
  match fifo.staged with
  | none => none
  | some payload =>
      some { fifo with
        tail := fifo.tail + kSliceSteps
        staged := none
        published := fifo.published ++ [payload] }

/-- The consumer finds `tail` past its slice. -/
def take : Option Fifo :=
  if fifo.reading = false ∧ fifo.head + kSliceSteps ≤ fifo.tail then
    some { fifo with taken := fifo.taken + 1, reading := true }
  else none

/-- First bytes of the slot the consumer reads. -/
def peek (len : ℕ) : List UInt8 := Memory.block fifo.data (addr slotBytes fifo.head) len

/-- The consumer stores `head`. -/
def release : Option Fifo :=
  if fifo.reading = true then
    some { fifo with head := fifo.head + kSliceSteps, reading := false }
  else none

/-- The line of a direct edge. -/
def line : Line UInt8 where
  published := fifo.published
  staged := fifo.staged
  taken := fifo.taken
  reading := fifo.reading

/-- The slices between head and tail lie in their slots. -/
structure Holds (slotBytes base : ℕ) (fifo : Fifo) : Prop where
  tail : fifo.tail = step base fifo.published.length
  head : fifo.head = step base fifo.line.released
  reading : fifo.reading.toNat ≤ fifo.taken
  taken_le : fifo.taken ≤ fifo.published.length
  bound : fifo.published.length ≤ fifo.line.released + slices
  fits : ∀ payload ∈ fifo.published, payload.length ≤ slotBytes
  stored : ∀ k payload, fifo.line.released ≤ k → fifo.published[k]? = some payload →
    Memory.block fifo.data (addr slotBytes (step base k)) payload.length = payload
  staged : ∀ payload, fifo.staged = some payload →
    fifo.published.length < fifo.line.released + slices ∧ payload.length ≤ slotBytes ∧
      Memory.block fifo.data (addr slotBytes fifo.tail) payload.length = payload

end Fifo

/-- Slices of one window have different slots. -/
theorem addr_apart (slotBytes base low : ℕ) {first second : ℕ} (distinct : first ≠ second)
    (first_low : low ≤ first) (first_high : first < low + slices) (second_low : low ≤ second)
    (second_high : second < low + slices) {len other : ℕ} (fits : len ≤ slotBytes)
    (other_fits : other ≤ slotBytes) :
    addr slotBytes (step base first) + len ≤ addr slotBytes (step base second) ∨
      addr slotBytes (step base second) + other ≤ addr slotBytes (step base first) := by
  have slots : step base first % kFifoSteps ≠ step base second % kFifoSteps := by
    apply Memory.mod_ne_of_window (step base low)
    all_goals
      simp only [step, slices, kSliceSteps, kFifoSteps] at *
      omega
  have apart := Memory.slots_apart 0 slots fits (show 0 + other ≤ slotBytes by omega)
  simpa [addr] using apart

namespace Fifo.Holds

variable {slotBytes base : ℕ} {fifo next : Fifo}

theorem fresh (slotBytes base : ℕ) : Holds slotBytes base (Fifo.fresh base) where
  tail := by simp [Fifo.fresh, step]
  head := by simp [Fifo.fresh, step, Fifo.line, Line.released]
  reading := by simp [Fifo.fresh]
  taken_le := by simp [Fifo.fresh]
  bound := by simp [Fifo.fresh]
  fits := by simp [Fifo.fresh]
  stored := by simp [Fifo.fresh]
  staged := by simp [Fifo.fresh]

theorem released_le (holds : Holds slotBytes base fifo) :
    fifo.line.released ≤ fifo.published.length := by
  have := holds.taken_le
  simp only [Line.released, Fifo.line]
  omega

theorem fill (holds : Holds slotBytes base fifo) {payload : List UInt8}
    (filled : fifo.fill slotBytes payload = some next) :
    Holds slotBytes base next ∧ fifo.line.stage payload = some next.line := by
  unfold Fifo.fill at filled
  split_ifs at filled with guard
  obtain ⟨idle, fits, credit⟩ := guard
  obtain rfl := Option.some.inj filled
  have room : fifo.published.length < fifo.line.released + slices := by
    rw [holds.tail, holds.head] at credit
    simp only [step, slices, kSliceSteps, kFifoSteps] at credit ⊢
    omega
  refine ⟨{ holds with stored := ?_, staged := ?_ }, Line.stage_eq_some.mpr ⟨idle, rfl⟩⟩
  · intro k slice released found
    have inside : k < fifo.published.length := (List.getElem?_eq_some_iff.mp found).1
    have apart := addr_apart slotBytes base fifo.line.released inside.ne released (by omega)
      holds.released_le room (holds.fits slice (List.mem_of_getElem? found)) fits
    rw [← holds.tail] at apart
    rw [Memory.block_writeBlock_apart _ _ apart]
    exact holds.stored k slice released found
  · intro slice same
    obtain rfl : payload = slice := Option.some.inj same
    exact ⟨room, fits, Memory.block_writeBlock _ _ _⟩

theorem publish (holds : Holds slotBytes base fifo) (published : fifo.publish = some next) :
    Holds slotBytes base next ∧ fifo.line.publish = some next.line := by
  unfold Fifo.publish at published
  split at published
  · cases published
  case h_2 payload found =>
    obtain rfl := Option.some.inj published
    obtain ⟨room, fits, stored⟩ := holds.staged payload found
    refine ⟨?_, Line.publish_eq_some.mpr ⟨payload, found, rfl⟩⟩
    refine { head := holds.head, reading := holds.reading, tail := ?_, taken_le := ?_,
             bound := ?_, fits := ?_, stored := ?_, staged := ?_ }
    · have tail := holds.tail
      simp only [List.length_append, List.length_singleton, step] at tail ⊢
      rw [tail]
      ring
    · simp only [List.length_append, List.length_singleton]
      exact holds.taken_le.trans (Nat.le_succ _)
    · simp only [List.length_append, List.length_singleton]
      exact room
    · intro slice member
      rcases List.mem_append.mp member with old | new
      · exact holds.fits slice old
      · rw [List.mem_singleton.mp new]
        exact fits
    · intro k slice released at_k
      rcases Queue.getElem?_concat_eq_some_iff.mp at_k with old | ⟨rfl, rfl⟩
      · exact holds.stored k slice released old
      · rw [← holds.tail]
        exact stored
    · intro slice absurd
      cases absurd

theorem take (holds : Holds slotBytes base fifo) (taken : fifo.take = some next) :
    Holds slotBytes base next ∧ fifo.line.take = some next.line := by
  unfold Fifo.take at taken
  split_ifs at taken with guard
  obtain ⟨idle, below⟩ := guard
  obtain rfl := Option.some.inj taken
  have released : fifo.line.released = fifo.taken := by simp [Line.released, Fifo.line, idle]
  have inside : fifo.taken < fifo.published.length := by
    rw [holds.tail, holds.head, released] at below
    simp only [step, kSliceSteps] at below
    omega
  have same : fifo.line.released =
      ({ fifo with taken := fifo.taken + 1, reading := true } : Fifo).line.released := by
    rw [released]
    rfl
  refine ⟨?_, Line.take_eq_some.mpr ⟨idle, inside, rfl⟩⟩
  refine { tail := holds.tail, fits := holds.fits, head := ?_, reading := ?_, taken_le := inside,
           bound := ?_, stored := ?_, staged := ?_ }
  · rw [← same]
    exact holds.head
  · exact Nat.le_add_left 1 _
  · rw [← same]
    exact holds.bound
  · rw [← same]
    exact holds.stored
  · rw [← same]
    exact holds.staged

theorem release (holds : Holds slotBytes base fifo) (released : fifo.release = some next) :
    Holds slotBytes base next ∧ fifo.line.release = some next.line := by
  unfold Fifo.release at released
  split_ifs at released with busy
  obtain rfl := Option.some.inj released
  have some_taken := holds.reading
  rw [busy] at some_taken
  have forward : ({ fifo with head := fifo.head + kSliceSteps, reading := false } :
      Fifo).line.released = fifo.line.released + 1 := by
    simp only [Line.released, Fifo.line, busy, Bool.toNat_false, Bool.toNat_true] at some_taken ⊢
    omega
  refine ⟨?_, Line.release_eq_some.mpr ⟨busy, rfl⟩⟩
  refine { tail := holds.tail, fits := holds.fits, taken_le := holds.taken_le, head := ?_,
           reading := Nat.zero_le _, bound := ?_, stored := ?_, staged := ?_ }
  · rw [forward]
    have head := holds.head
    simp only [step] at head ⊢
    rw [head]
    ring
  · rw [forward]
    have := holds.bound
    show fifo.published.length ≤ _
    omega
  · intro k payload low found
    rw [forward] at low
    exact holds.stored k payload (by omega) found
  · intro payload found
    obtain ⟨room, rest⟩ := holds.staged payload found
    rw [forward]
    exact ⟨room.trans (by omega), rest⟩

/-- The slot the consumer reads holds the slice it has found. -/
theorem peek (holds : Holds slotBytes base fifo) (busy : fifo.reading = true) {k : ℕ}
    (last : fifo.taken = k + 1) {payload : List UInt8}
    (found : fifo.published[k]? = some payload) : fifo.peek slotBytes payload.length = payload := by
  have released : fifo.line.released = k := by simp [Line.released, Fifo.line, busy, last]
  have head := holds.head
  rw [released] at head
  unfold Fifo.peek
  rw [head]
  exact holds.stored k payload released.le found

end Fifo.Holds

/-- A direct edge as a pipe; nothing moves but its two ends. -/
def pipe (slotBytes base : ℕ) : Pipe UInt8 where
  State := Fifo
  Own := Empty
  start := Fifo.fresh base
  fill := Fifo.fill slotBytes
  publish := Fifo.publish
  take := Fifo.take
  peek := Fifo.peek slotBytes
  release := Fifo.release
  own := fun _ => nofun
  line := Fifo.line
  Good := Fifo.Holds slotBytes base
  good_start := Fifo.Holds.fresh slotBytes base
  line_start := rfl
  fill_spec := fun holds filled => holds.fill filled
  publish_spec := Fifo.Holds.publish
  take_spec := Fifo.Holds.take
  release_spec := Fifo.Holds.release
  own_spec := fun {_ move} => nomatch move
  peek_spec := fun holds busy last => holds.peek busy last

/-- The slots of a direct edge. -/
def slots (slotBytes base : ℕ) : (pipe slotBytes base).Slots where
  window := kFifoSteps
  width := kSliceSteps
  base := base
  tail := Fifo.tail
  head := Fifo.head
  write := Fifo.write slotBytes
  fill_eq := by
    intro fifo payload room
    simp [pipe, Fifo.fill, Fifo.write, room]
  tail_eq := fun holds => holds.tail
  head_le := by
    intro fifo next move _ moved
    cases move with
    | fill payload =>
        simp only [Pipe.step, pipe, Fifo.fill] at moved
        split_ifs at moved
        exact (congrArg Fifo.head (Option.some.inj moved)).le
    | publish =>
        simp only [Pipe.step, pipe, Fifo.publish] at moved
        split at moved
        · cases moved
        · exact (congrArg Fifo.head (Option.some.inj moved)).le
    | take =>
        simp only [Pipe.step, pipe, Fifo.take] at moved
        split_ifs at moved
        exact (congrArg Fifo.head (Option.some.inj moved)).le
    | release =>
        simp only [Pipe.step, pipe, Fifo.release] at moved
        split_ifs at moved
        obtain rfl := Option.some.inj moved
        exact Nat.le_add_right _ _
    | own move => exact nomatch move

end NanoNccl.Direct
