import NanoNccl.Geometry
import NanoNccl.Lib.Memory
import NanoNccl.Lib.Threads

/-!
# Moving elements between buffers

Every data worker of the kernel reads elements of one or two sources, combines them and writes the
result to one or two destinations, index by index; the workers differ in how many indices one
access takes and in how indices are grouped. A mover is what such a worker computes. A group of
pieces loads all its elements before it stores any.

Cells of the memory hold elements, and a pointer is the number of its first element, so that its
byte address is that number times `sizeof(T)`.
-/

namespace NanoNccl

open Threads

/-- What a thread does besides its accesses to elements. -/
inductive Sign
  /-- A vector access at an address that is no multiple of 16 bytes. -/
  | misaligned (pointer : ℕ)
  /-- A store to `recv_head`. -/
  | recvHead (step : ℕ)
  /-- A store to `send_tail`. -/
  | sendTail (step : ℕ)
  /-- A store to an entry of `send_payload_bytes`. -/
  | payloadBytes (slot bytes : ℕ)
  deriving DecidableEq

/-- The program of a thread over elements of type `α`. -/
abbrev ThreadProgram (α β : Type) := Program α Sign β

/-- Where the elements come from. -/
inductive Source (α : Type)
  /-- The elements of one buffer. -/
  | copy (src : ℕ)
  /-- The elements of two buffers, combined. -/
  | reduce (apply : α → α → α) (own recv : ℕ)

/-- What a data worker computes. -/
structure Mover (α : Type) where
  source : Source α
  /-- `scale_avg` where the worker applies it, else nothing. -/
  scale : α → α
  dests : List ℕ

variable {α : Type}

/-- The buffers elements are read from. -/
def Source.pointers : Source α → List ℕ
  | .copy src => [src]
  | .reduce _ own recv => [own, recv]

/-- The scalar value for an index. -/
def Source.value (memory : ℕ → α) (index : ℕ) : Source α → α
  | .copy src => memory (src + index)
  | .reduce apply own recv => apply (memory (own + index)) (memory (recv + index))

/-- The scalar result for an index. -/
def Mover.result (mover : Mover α) (memory : ℕ → α) (index : ℕ) : α :=
  mover.scale (mover.source.value memory index)

/-- An access of `width` elements of `size` bytes; more than one at a time are aligned. -/
def checkAlignment (size pointer width : ℕ) : ThreadProgram α Unit :=
  if width = 1 ∨ pointer * size % kVectorBytes = 0 then pure ()
  else Program.emit (.misaligned pointer)

/-- Load `width` elements. -/
def loadElements (size pointer width : ℕ) : ThreadProgram α (List α) := do
  checkAlignment size pointer width
  Program.readCells pointer width

/-- Store consecutive elements. -/
def storeElements (size pointer : ℕ) (values : List α) : ThreadProgram α Unit := do
  checkAlignment size pointer values.length
  Program.writeCells pointer values

/-- The combined elements of one piece; packed operations act on each lane as the scalar one. -/
def Source.fetch (size first width : ℕ) : Source α → ThreadProgram α (List α)
  | .copy src => loadElements size (src + first) width
  | .reduce apply own recv => do
      let owns ← loadElements size (own + first) width
      let recvs ← loadElements size (recv + first) width
      pure (List.zipWith apply owns recvs)

/-- Load the elements of all pieces, given by first index and width. -/
def Mover.fetchAll (mover : Mover α) (size : ℕ) :
    List (ℕ × ℕ) → ThreadProgram α (List (ℕ × List α))
  | [] => pure []
  | (first, width) :: pieces => do
      let values ← mover.source.fetch size first width
      let later ← mover.fetchAll size pieces
      pure ((first, values.map mover.scale) :: later)

/-- Store the values of one piece to every destination. -/
def Mover.put (mover : Mover α) (size first : ℕ) (values : List α) : ThreadProgram α Unit :=
  Program.forEach mover.dests fun dest => storeElements size (dest + first) values

/-- Move the pieces of one group: all loads come before all stores. -/
def Mover.move (mover : Mover α) (size : ℕ) (pieces : List (ℕ × ℕ)) : ThreadProgram α Unit := do
  let values ← mover.fetchAll size pieces
  Program.forEach values fun piece => mover.put size piece.1 piece.2

/-- The indices of a group. -/
def Within (pieces : List (ℕ × ℕ)) (index : ℕ) : Prop :=
  ∃ piece ∈ pieces, piece.1 ≤ index ∧ index < piece.1 + piece.2

/-- Every access of more than one element is aligned. -/
def Mover.Aligned (mover : Mover α) (size : ℕ) (pieces : List (ℕ × ℕ)) : Prop :=
  ∀ piece ∈ pieces, piece.2 = 1 ∨
    ∀ pointer ∈ mover.source.pointers ++ mover.dests, (pointer + piece.1) * size % kVectorBytes = 0

/-- A destination meets a source or another destination at equal indices only: it is the same
buffer or a disjoint one. -/
structure Mover.Separated (mover : Mover α) (count : ℕ) : Prop where
  sources : ∀ src ∈ mover.source.pointers, ∀ dest ∈ mover.dests, ∀ i < count, ∀ j < count,
    src + i = dest + j → i = j
  dests : ∀ first ∈ mover.dests, ∀ second ∈ mover.dests, ∀ i < count, ∀ j < count,
    first + i = second + j → i = j

/-- The accesses move exactly the indices of a set, with the given results. -/
structure Mover.Does (mover : Mover α) (result : ℕ → α) (indices : ℕ → Prop)
    (events : List (Event α Sign)) : Prop where
  sound : ∀ event ∈ events,
    (∃ src ∈ mover.source.pointers, ∃ i, indices i ∧ ∃ value, event = .load (src + i) value) ∨
      ∃ dest ∈ mover.dests, ∃ i, indices i ∧ event = .store (dest + i) (result i)
  complete : ∀ dest ∈ mover.dests, ∀ i, indices i → .store (dest + i) (result i) ∈ events

/-! ### One group -/

section Group

variable {mover : Mover α} {memory : ℕ → α} {size : ℕ}

theorem solo_loadElements {pointer width : ℕ}
    (aligned : width = 1 ∨ pointer * size % kVectorBytes = 0) :
    solo (loadElements size pointer width : ThreadProgram α (List α)) memory =
      ⟨Memory.block memory pointer width, memory,
        (List.range width).map fun k => .load (pointer + k) (memory (pointer + k))⟩ := by
  rw [loadElements, solo_bind, checkAlignment, if_pos aligned, solo_pure]
  simp only [solo_readCells, List.nil_append]

theorem mem_solo_storeElements {pointer : ℕ} {values : List α} {event : Event α Sign}
    (aligned : values.length = 1 ∨ pointer * size % kVectorBytes = 0) :
    event ∈ (solo (storeElements size pointer values) memory).events ↔
      ∃ k value, values[k]? = some value ∧ event = .store (pointer + k) value := by
  rw [storeElements, solo_bind, checkAlignment, if_pos aligned, solo_pure]
  simp only [mem_solo_writeCells, List.nil_append]

theorem solo_fetch (memory : ℕ → α) (source : Source α) {first width : ℕ}
    (aligned : width = 1 ∨
      ∀ pointer ∈ source.pointers, (pointer + first) * size % kVectorBytes = 0) :
    (solo (source.fetch size first width) memory).result =
        (List.range width).map (fun k => source.value memory (first + k)) ∧
      (solo (source.fetch size first width) memory).memory = memory ∧
      ∀ event ∈ (solo (source.fetch size first width) memory).events,
        ∃ src ∈ source.pointers, ∃ k < width, ∃ value, event = .load (src + (first + k)) value := by
  cases source with
  | copy src =>
      have here : width = 1 ∨ (src + first) * size % kVectorBytes = 0 :=
        aligned.imp_right fun all => all src (by simp [Source.pointers])
      rw [Source.fetch, solo_loadElements here]
      refine ⟨?_, rfl, fun event member => ?_⟩
      · simp [Memory.block, Source.value, Nat.add_assoc]
      · obtain ⟨k, inside, rfl⟩ := List.mem_map.mp member
        exact ⟨src, by simp [Source.pointers], k, List.mem_range.mp inside, _,
          by rw [Nat.add_assoc]⟩
  | reduce apply own recv =>
      have own_aligned : width = 1 ∨ (own + first) * size % kVectorBytes = 0 :=
        aligned.imp_right fun all => all own (by simp [Source.pointers])
      have recv_aligned : width = 1 ∨ (recv + first) * size % kVectorBytes = 0 :=
        aligned.imp_right fun all => all recv (by simp [Source.pointers])
      simp only [Source.fetch, solo_bind, solo_loadElements own_aligned,
        solo_loadElements recv_aligned, solo_pure, List.append_nil, List.mem_append, List.mem_map,
        List.mem_range, true_and]
      refine ⟨?_, fun event member => ?_⟩
      · simp [Memory.block, Source.value, Nat.add_assoc, List.zipWith_map]
      · rcases member with ⟨k, inside, rfl⟩ | ⟨k, inside, rfl⟩
        · exact ⟨own, by simp [Source.pointers], k, inside, _, by rw [Nat.add_assoc]⟩
        · exact ⟨recv, by simp [Source.pointers], k, inside, _, by rw [Nat.add_assoc]⟩

theorem Mover.Aligned.head {piece : ℕ × ℕ} {pieces : List (ℕ × ℕ)}
    (aligned : mover.Aligned size (piece :: pieces)) :
    (piece.2 = 1 ∨ ∀ pointer ∈ mover.source.pointers ++ mover.dests,
      (pointer + piece.1) * size % kVectorBytes = 0) ∧ mover.Aligned size pieces :=
  ⟨aligned piece List.mem_cons_self, fun other member =>
    aligned other (List.mem_cons_of_mem _ member)⟩

/-- The values the loads of a group leave for its stores. -/
def Mover.values (mover : Mover α) (memory : ℕ → α) (pieces : List (ℕ × ℕ)) :
    List (ℕ × List α) :=
  pieces.map fun piece =>
    (piece.1, (List.range piece.2).map fun k => mover.result memory (piece.1 + k))

theorem solo_fetchAll (memory : ℕ → α) {pieces : List (ℕ × ℕ)}
    (aligned : mover.Aligned size pieces) :
    (solo (mover.fetchAll size pieces) memory).result = mover.values memory pieces ∧
      (solo (mover.fetchAll size pieces) memory).memory = memory ∧
      ∀ event ∈ (solo (mover.fetchAll size pieces) memory).events,
        ∃ src ∈ mover.source.pointers, ∃ i, Within pieces i ∧
          ∃ value, event = .load (src + i) value := by
  induction pieces with
  | nil => exact ⟨rfl, rfl, fun event member => by cases member⟩
  | cons piece pieces ih =>
      obtain ⟨here, later⟩ := aligned.head
      obtain ⟨rest, kept, loads⟩ := ih later
      obtain ⟨values, unchanged, first_loads⟩ :=
        solo_fetch memory mover.source (here.imp_right fun all pointer member =>
          all pointer (List.mem_append_left _ member))
      simp only [Mover.fetchAll, solo_bind, values, unchanged, rest, kept, solo_pure,
        List.append_nil, List.mem_append]
      refine ⟨?_, trivial, fun event member => ?_⟩
      · simp [Mover.values, Mover.result]
      · rcases member with first | later
        · obtain ⟨src, source, k, inside, value, rfl⟩ := first_loads event first
          exact ⟨src, source, piece.1 + k, ⟨piece, List.mem_cons_self, by omega, by omega⟩, value,
            rfl⟩
        · obtain ⟨src, source, i, ⟨other, member, bounds⟩, value, rfl⟩ := loads event later
          exact ⟨src, source, i, ⟨other, List.mem_cons_of_mem _ member, bounds⟩, value, rfl⟩

/-- The stores of one piece. -/
theorem mem_solo_put {first : ℕ} {values : List α} {event : Event α Sign}
    (aligned : values.length = 1 ∨
      ∀ dest ∈ mover.dests, (dest + first) * size % kVectorBytes = 0) :
    event ∈ (solo (mover.put size first values) memory).events ↔
      ∃ dest ∈ mover.dests, ∃ k value, values[k]? = some value ∧
        event = .store (dest + (first + k)) value := by
  have each (dest : ℕ) (member : dest ∈ mover.dests) (later : ℕ → α) (event : Event α Sign) :
      event ∈ (solo (storeElements size (dest + first) values) later).events ↔
        ∃ k value, values[k]? = some value ∧ event = .store (dest + (first + k)) value := by
    rw [mem_solo_storeElements (aligned.imp_right fun all => all dest member)]
    simp only [Nat.add_assoc]
  exact mem_solo_forEach memory each

/-- A group moves its indices, as scalar code would from the memory it starts from. -/
theorem move_does {pieces : List (ℕ × ℕ)} (aligned : mover.Aligned size pieces) :
    mover.Does (mover.result memory) (Within pieces)
      (solo (mover.move size pieces) memory).events := by
  obtain ⟨values, unchanged, loads⟩ := solo_fetchAll memory aligned
  have stores (event : Event α Sign) :
      event ∈ (solo (Program.forEach (mover.values memory pieces) fun piece =>
          mover.put size piece.1 piece.2) memory).events ↔
        ∃ piece ∈ mover.values memory pieces, ∃ dest ∈ mover.dests, ∃ k value,
          piece.2[k]? = some value ∧ event = .store (dest + (piece.1 + k)) value := by
    refine mem_solo_forEach memory fun piece member later event => mem_solo_put ?_
    obtain ⟨original, inside, rfl⟩ := List.mem_map.mp member
    refine (aligned original inside).imp (fun single => by simpa using single)
      fun all dest member => all dest (List.mem_append_right _ member)
  have events : (solo (mover.move size pieces) memory).events =
      (solo (mover.fetchAll size pieces) memory).events ++
        (solo (Program.forEach (mover.values memory pieces) fun piece =>
          mover.put size piece.1 piece.2) memory).events := by
    rw [Mover.move, solo_bind, values, unchanged]
  refine ⟨fun event member => ?_, fun dest member i inside => ?_⟩
  · rw [events, List.mem_append] at member
    rcases member with load | store
    · exact .inl (loads event load)
    · obtain ⟨_, moved, dest, member, k, value, found, rfl⟩ := (stores event).mp store
      obtain ⟨piece, inside, rfl⟩ := List.mem_map.mp moved
      obtain ⟨short, rfl⟩ := List.getElem?_eq_some_iff.mp found
      simp only [List.length_map, List.length_range] at short
      refine .inr ⟨dest, member, piece.1 + k, ⟨piece, inside, by omega, by omega⟩, ?_⟩
      simp
  · rw [events, List.mem_append]
    obtain ⟨piece, moved, low, high⟩ := inside
    refine .inr ((stores _).mpr ⟨_, List.mem_map.mpr ⟨piece, moved, rfl⟩, dest, member,
      i - piece.1, mover.result memory i, ?_, ?_⟩)
    · have short : i - piece.1 < piece.2 := by omega
      simp [short, Nat.add_sub_cancel' low]
    · rw [Nat.add_sub_cancel' low]

end Group

/-! ### One thread after another group -/

section Groups

variable {mover : Mover α} {memory : ℕ → α} {size count : ℕ} {result : ℕ → α}

theorem Mover.Does.congr {indices : ℕ → Prop} {events : List (Event α Sign)} {other : ℕ → α}
    (does : mover.Does result indices events) (same : ∀ i, indices i → result i = other i) :
    mover.Does other indices events := by
  refine ⟨fun event member => ?_, fun dest member i inside => ?_⟩
  · refine (does.sound event member).imp_right ?_
    rintro ⟨dest, at_dest, i, inside, rfl⟩
    exact ⟨dest, at_dest, i, inside, by rw [same i inside]⟩
  · rw [← same i inside]
    exact does.complete dest member i inside

theorem Mover.Does.of_iff {indices others : ℕ → Prop} {events : List (Event α Sign)}
    (does : mover.Does result indices events) (same : ∀ i, indices i ↔ others i) :
    mover.Does result others events := by
  obtain rfl : indices = others := funext fun i => propext (same i)
  exact does

/-- No access moves no index. -/
theorem does_nothing (mover : Mover α) {indices : ℕ → Prop} (none : ∀ i, ¬ indices i) :
    mover.Does result indices [] :=
  ⟨fun event member => (by cases member), fun _ _ i inside => absurd inside (none i)⟩

/-- Moving some indices leaves the results of other indices as they were. -/
theorem Mover.Does.result_eq {indices : ℕ → Prop} {program : ThreadProgram α Unit}
    (separated : mover.Separated count)
    (does : mover.Does result indices (solo program memory).events)
    (bounded : ∀ i, indices i → i < count) {j : ℕ} (inside : j < count) (other : ¬ indices j) :
    mover.result (solo program memory).memory j = mover.result memory j := by
  have kept (src : ℕ) (source : src ∈ mover.source.pointers) :
      (solo program memory).memory (src + j) = memory (src + j) := by
    refine solo_frame program memory fun value member => ?_
    rcases does.sound _ member with ⟨_, _, _, _, _, loads⟩ | ⟨dest, at_dest, i, moved, stores⟩
    · cases loads
    · have address : src + j = dest + i := by
        injection stores
      have same : j = i :=
        separated.sources src source dest at_dest j inside i (bounded i moved) address
      exact other (same ▸ moved)
  unfold Mover.result
  congr 1
  cases source : mover.source with
  | copy src =>
      exact kept src (by simp [source, Source.pointers])
  | reduce apply own recv =>
      have owns := kept own (by simp [source, Source.pointers])
      have recvs := kept recv (by simp [source, Source.pointers])
      simp only [Source.value, owns, recvs]

/-- Groups of different indices, one after the other. -/
theorem forEach_move_does {groups : List (List (ℕ × ℕ))} (separated : mover.Separated count)
    (aligned : ∀ group ∈ groups, mover.Aligned size group)
    (bounded : ∀ group ∈ groups, ∀ i, Within group i → i < count)
    (apart : groups.Pairwise fun first second => ∀ i, Within first i → ¬ Within second i) :
    mover.Does (mover.result memory) (fun i => ∃ group ∈ groups, Within group i)
      (solo (Program.forEach groups (mover.move size)) memory).events := by
  induction groups generalizing memory with
  | nil => exact ⟨fun event member => (by cases member), fun _ _ _ inside => (by simp at inside)⟩
  | cons group groups ih =>
      rw [List.pairwise_cons] at apart
      have first : mover.Does (mover.result memory) (Within group)
          (solo (mover.move size group) memory).events :=
        move_does (aligned group List.mem_cons_self)
      have rest : mover.Does (mover.result (solo (mover.move size group) memory).memory)
          (fun i => ∃ group ∈ groups, Within group i) _ :=
        ih (fun other member => aligned other (List.mem_cons_of_mem _ member))
          (fun other member => bounded other (List.mem_cons_of_mem _ member)) apart.2
      have later := rest.congr fun i inside => by
        obtain ⟨other, member, within⟩ := inside
        exact first.result_eq separated (bounded group List.mem_cons_self)
          (bounded other (List.mem_cons_of_mem _ member) i within)
          fun moved => apart.1 other member i moved within
      rw [solo_forEach_cons]
      refine ⟨fun event member => ?_, fun dest at_dest i inside => ?_⟩
      · rcases List.mem_append.mp member with now | then_on
        · refine (first.sound event now).imp ?_ ?_
          · rintro ⟨src, source, i, within, value, rfl⟩
            exact ⟨src, source, i, ⟨group, List.mem_cons_self, within⟩, value, rfl⟩
          · rintro ⟨dest, at_dest, i, within, rfl⟩
            exact ⟨dest, at_dest, i, ⟨group, List.mem_cons_self, within⟩, rfl⟩
        · refine (later.sound event then_on).imp ?_ ?_
          · rintro ⟨src, source, i, ⟨other, among, within⟩, value, rfl⟩
            exact ⟨src, source, i, ⟨other, List.mem_cons_of_mem _ among, within⟩, value, rfl⟩
          · rintro ⟨dest, at_dest, i, ⟨other, among, within⟩, rfl⟩
            exact ⟨dest, at_dest, i, ⟨other, List.mem_cons_of_mem _ among, within⟩, rfl⟩
      · obtain ⟨other, among, within⟩ := inside
        rcases List.mem_cons.mp among with rfl | among
        · exact List.mem_append_left _ (first.complete dest at_dest i within)
        · exact List.mem_append_right _ (later.complete dest at_dest i ⟨other, among, within⟩)

end Groups

/-! ### All threads of a block -/

/-- A thread gives its signals and moves its indices. -/
def Mover.Acts (mover : Mover α) (result : ℕ → α) (indices : ℕ → Prop) (signs : List Sign)
    (events : List (Event α Sign)) : Prop :=
  ∃ moved, events = signs.map .signal ++ moved ∧ mover.Does result indices moved

/-- A block has moved the first `count` indices: every index of a destination was written by one
thread, with the scalar result, and nothing else was touched. -/
structure Mover.Moved (mover : Mover α) (count : ℕ) (signs : ℕ → List Sign) (memory : ℕ → α)
    (final : Threads.Block α Sign) : Prop where
  written_once : ∀ dest ∈ mover.dests, ∀ i < count, ∃ thread,
    (thread, .store (dest + i) (mover.result memory i)) ∈ final.log ∧
      ∀ other value, (other, .store (dest + i) value) ∈ final.log →
        other = thread ∧ value = mover.result memory i
  bounded : ∀ entry ∈ final.log,
    (∃ src ∈ mover.source.pointers, ∃ i < count, ∃ value, entry.2 = .load (src + i) value) ∨
      (∃ dest ∈ mover.dests, ∃ i < count, entry.2 = .store (dest + i) (mover.result memory i)) ∨
      ∃ sign ∈ signs entry.1, entry.2 = .signal sign
  signals : ∀ thread, (ofThread final.log thread).filterMap Event.sign = signs thread
  stored : ∀ dest ∈ mover.dests, ∀ i < count, final.memory (dest + i) = mover.result memory i
  frame : ∀ addr, (∀ dest ∈ mover.dests, ∀ i < count, addr ≠ dest + i) →
    final.memory addr = memory addr

section Block

variable {mover : Mover α} {memory : ℕ → α} {count : ℕ} {program : ℕ → ThreadProgram α Unit}
  {indices : ℕ → ℕ → Prop} {signs : ℕ → List Sign}

theorem Mover.Acts.cases {result : ℕ → α} {own : ℕ → Prop} {given : List Sign}
    {events : List (Event α Sign)} (acts : mover.Acts result own given events)
    {event : Event α Sign} (member : event ∈ events) :
    (∃ sign ∈ given, event = .signal sign) ∨
      (∃ src ∈ mover.source.pointers, ∃ i, own i ∧ ∃ value, event = .load (src + i) value) ∨
      ∃ dest ∈ mover.dests, ∃ i, own i ∧ event = .store (dest + i) (result i) := by
  obtain ⟨moved, rfl, does⟩ := acts
  rcases List.mem_append.mp member with signal | access
  · obtain ⟨sign, among, rfl⟩ := List.mem_map.mp signal
    exact .inl ⟨sign, among, rfl⟩
  · exact .inr (does.sound event access)

theorem Mover.Acts.stores {result : ℕ → α} {own : ℕ → Prop} {given : List Sign}
    {events : List (Event α Sign)} (acts : mover.Acts result own given events) {addr : ℕ}
    {value : α} (member : .store addr value ∈ events) :
    ∃ dest ∈ mover.dests, ∃ i, own i ∧ addr = dest + i ∧ value = result i := by
  rcases acts.cases member with ⟨_, _, impossible⟩ | ⟨_, _, _, _, _, impossible⟩ |
    ⟨dest, at_dest, i, moved, same⟩
  · cases impossible
  · cases impossible
  · injection same with address stored
    exact ⟨dest, at_dest, i, moved, address, stored⟩

/-- Threads that move different indices do not meet. -/
theorem independent_of_acts (separated : mover.Separated count)
    (acts : ∀ thread, mover.Acts (mover.result memory) (indices thread) (signs thread)
      (solo (program thread) memory).events)
    (bounded : ∀ thread i, indices thread i → i < count)
    (once : ∀ first second i, indices first i → indices second i → first = second) :
    Independent program memory := by
  intro thread other distinct addr value stores event member meets
  obtain ⟨dest, at_dest, i, moved, rfl, -⟩ := (acts thread).stores stores
  have in_range := bounded thread i moved
  rcases (acts other).cases member with ⟨_, _, rfl⟩ | ⟨src, source, j, others, value, rfl⟩ |
    ⟨second, at_second, j, others, rfl⟩
  · cases meets
  · have address : src + j = dest + i := Option.some.inj meets
    have same := separated.sources src source dest at_dest j (bounded other j others) i in_range
      address
    exact distinct (once thread other i moved (same ▸ others))
  · have address : second + j = dest + i := Option.some.inj meets
    have same := separated.dests second at_second dest at_dest j (bounded other j others) i in_range
      address
    exact distinct (once thread other i moved (same ▸ others))

/-- In any interleaving of threads that move the indices of a partition, the block moves all. -/
theorem moved_of_acts (separated : mover.Separated count)
    (acts : ∀ thread, mover.Acts (mover.result memory) (indices thread) (signs thread)
      (solo (program thread) memory).events)
    (bounded : ∀ thread i, indices thread i → i < count)
    (covered : ∀ i < count, ∃ thread, indices thread i)
    (once : ∀ first second i, indices first i → indices second i → first = second)
    {schedule : List ℕ} {final : Threads.Block α Sign}
    (execution : StepSystem.exec step (.start memory program) schedule = some final)
    (finished : Finished final) : mover.Moved count signs memory final := by
  obtain ⟨logged, stored, frame⟩ :=
    interleaving (independent_of_acts separated acts bounded once) execution finished
  have in_log (thread : ℕ) (event : Event α Sign) :
      (thread, event) ∈ final.log ↔ event ∈ (solo (program thread) memory).events := by
    rw [← mem_ofThread, logged]
  have owner_stores (thread : ℕ) (dest : ℕ) (at_dest : dest ∈ mover.dests) (i : ℕ)
      (moved : indices thread i) :
      .store (dest + i) (mover.result memory i) ∈ (solo (program thread) memory).events := by
    obtain ⟨_, same, does⟩ := acts thread
    rw [same]
    exact List.mem_append_right _ (does.complete dest at_dest i moved)
  have only (other : ℕ) (dest : ℕ) (at_dest : dest ∈ mover.dests) (i : ℕ) (inside : i < count)
      (value : α) (member : .store (dest + i) value ∈ (solo (program other) memory).events) :
      indices other i ∧ value = mover.result memory i := by
    obtain ⟨second, at_second, j, moved, address, rfl⟩ := (acts other).stores member
    have same := separated.dests dest at_dest second at_second i inside j (bounded other j moved)
      address
    exact ⟨same ▸ moved, by rw [same]⟩
  constructor
  · intro dest at_dest i inside
    obtain ⟨thread, moved⟩ := covered i inside
    refine ⟨thread, (in_log _ _).mpr (owner_stores thread dest at_dest i moved), ?_⟩
    intro other value member
    obtain ⟨owns, same⟩ := only other dest at_dest i inside value ((in_log _ _).mp member)
    exact ⟨once other thread i owns moved, same⟩
  · rintro ⟨thread, event⟩ member
    rcases (acts thread).cases ((in_log _ _).mp member) with signal |
      ⟨src, source, i, moved, value, rfl⟩ | ⟨dest, at_dest, i, moved, rfl⟩
    · exact .inr (.inr signal)
    · exact .inl ⟨src, source, i, bounded thread i moved, value, rfl⟩
    · exact .inr (.inl ⟨dest, at_dest, i, bounded thread i moved, rfl⟩)
  · intro thread
    obtain ⟨moved, same, does⟩ := acts thread
    have silent : moved.filterMap Event.sign = [] := by
      rw [List.filterMap_eq_nil_iff]
      intro event member
      rcases does.sound event member with ⟨_, _, _, _, _, rfl⟩ | ⟨_, _, _, _, rfl⟩ <;> rfl
    rw [logged, same, List.filterMap_append, silent, List.append_nil, List.filterMap_map]
    exact List.filterMap_some
  · intro dest at_dest i inside
    obtain ⟨thread, moved⟩ := covered i inside
    have stores := owner_stores thread dest at_dest i moved
    rw [stored thread _ _ stores]
    exact solo_stored _ _ stores fun other member =>
      (only thread dest at_dest i inside other member).2
  · intro addr outside
    refine frame addr fun thread value member => ?_
    obtain ⟨dest, at_dest, i, moved, address, -⟩ := (acts thread).stores member
    exact outside dest at_dest i (bounded thread i moved) address

end Block

end NanoNccl
