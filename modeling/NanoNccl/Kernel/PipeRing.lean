import NanoNccl.Kernel.Layout
import NanoNccl.Lib.Pipe

/-!
# The ring over pipes

The ring of kernels once more, with any pipe in the place of each edge: the blocks run the same
slice operations, and the bytes of a slice travel through whatever serves the edge. A slice
operation waits for its slice, makes its pass once the published head leaves room for it, and then
gives the receive slot back and publishes the send slot in either order. The two passes of a small
slice count as one: the second works on a send slot that is not published yet and on the block's own
output. Between the moves of the blocks the edges make moves of their own.

The blocks keep no step numbers and no caches. What the code keeps of the edge a block sends on, the
base step, the step and the cached head each launch seeds, is laid over this ring in the ring with
seeded caches, which writes a slot on the strength of its cache alone.
-/

namespace NanoNccl

/-- How elements lie in memory. -/
structure Codec (α : Type*) where
  /-- Bytes of an element. -/
  encode : DType → α → List UInt8
  /-- The element some bytes stand for. -/
  decode : DType → List UInt8 → α
  /-- Elements of a type. -/
  Typed : DType → α → Prop
  length_encode : ∀ {dtype value}, Typed dtype value → (encode dtype value).length = dtype.size
  decode_encode : ∀ {dtype value}, Typed dtype value → decode dtype (encode dtype value) = value

namespace Codec

variable {α : Type*} (codec : Codec α)

/-- Bytes of the first `work` elements of an array. -/
def pack (dtype : DType) (work : ℕ) (value : ℕ → α) : List UInt8 :=
  (List.range work).flatMap fun i => codec.encode dtype (value i)

/-- Element `i` of an array of bytes. -/
def element (dtype : DType) (bytes : List UInt8) (i : ℕ) : α :=
  codec.decode dtype ((bytes.drop (i * dtype.size)).take dtype.size)

variable {codec} {dtype : DType} {value : ℕ → α}

theorem length_pack {work : ℕ} (typed : ∀ i < work, codec.Typed dtype (value i)) :
    (codec.pack dtype work value).length = work * dtype.size := by
  unfold pack
  rw [List.length_flatMap]
  have sizes : (List.range work).map (fun i => (codec.encode dtype (value i)).length) =
      (List.range work).map fun _ => dtype.size :=
    List.map_congr_left fun i inside => codec.length_encode (typed i (List.mem_range.mp inside))
  rw [sizes]
  simp

theorem pack_succ (work : ℕ) (value : ℕ → α) :
    codec.pack dtype (work + 1) value =
      codec.encode dtype (value 0) ++ codec.pack dtype work fun i => value (i + 1) := by
  unfold pack
  rw [List.range_succ_eq_map, List.flatMap_cons, List.flatMap_map]

/-- The bytes of an array hold its elements. -/
theorem element_pack {work i : ℕ} (typed : ∀ i < work, codec.Typed dtype (value i))
    (inside : i < work) : codec.element dtype (codec.pack dtype work value) i = value i := by
  induction work generalizing i value with
  | zero => exact absurd inside (Nat.not_lt_zero i)
  | succ work ih =>
      have first := codec.length_encode (typed 0 (Nat.succ_pos work))
      have later : ∀ i < work, codec.Typed dtype (value (i + 1)) :=
        fun i small => typed (i + 1) (Nat.succ_lt_succ small)
      rw [pack_succ]
      unfold element
      cases i with
      | zero =>
          rw [Nat.zero_mul, List.drop_zero, List.take_left' first,
            codec.decode_encode (typed 0 (Nat.succ_pos work))]
      | succ i =>
          have rest := ih later (Nat.lt_of_succ_lt_succ inside)
          rw [Nat.succ_mul, Nat.add_comm, ← List.drop_drop, List.drop_left' first]
          exact rest

end Codec

/-- A ring of kernels with a pipe for every edge. -/
structure PipeRing (α : Type*) where
  /-- The ranks, the channels, the launches and the arithmetic. -/
  net : KernelRing α
  /-- Memory representation of the elements. -/
  codec : Codec α
  /-- The pipe on which a block sends. -/
  edge : BlockId → Pipe UInt8

/-- Progress inside the current slice operation. -/
structure SliceProgress where
  /-- `recv_tail` covers the slice. -/
  taken : Bool := false
  /-- The pass over the slice is done. -/
  moved : Bool := false
  /-- `recv_head` is published. -/
  released : Bool := false
  /-- `send_tail` is published. -/
  published : Bool := false
  deriving DecidableEq, Repr

/-- One kernel block. -/
structure PipeBlock where
  /-- The block runs a kernel that has not returned. -/
  live : Bool := false
  /-- Index of the launch the block last entered. -/
  launch : ℕ := 0
  /-- Slice operations left, the current one first. -/
  ops : List SliceOp := []
  /-- Progress of the current slice operation. -/
  slice : SliceProgress := {}

/-- The kernel returns. -/
def PipeBlock.retire (block : PipeBlock) : PipeBlock := { block with live := false }

/-- Actions of a block. -/
inductive PipeAction
  /-- The wait for `recv_tail` ends. -/
  | take
  /-- The pass is made, into a slot the published head leaves room for. -/
  | move
  /-- `recv_head` is stored. -/
  | release
  /-- `send_tail` is stored. -/
  | publish
  /-- The next slice operation. -/
  | next
  /-- The kernel returns. -/
  | ret
  deriving DecidableEq, Repr

namespace PipeRing

variable {α : Type*} (ring : PipeRing α)

/-- State of the ring. -/
structure State where
  /-- Launches started by each rank. -/
  started : ℕ → ℕ
  /-- The kernel blocks. -/
  block : BlockId → PipeBlock
  /-- The edges. -/
  edge : ∀ id, (ring.edge id).State
  /-- Values the passes leave in each element of an output buffer, oldest first. Buffers are
  named by rank and launch. -/
  writes : ℕ × ℕ → ℕ → List α

/-- Steps of the ring. -/
inductive Label
  /-- A rank starts its next launch. -/
  | launch (rank : ℕ)
  /-- A block acts. -/
  | block (id : BlockId) (action : PipeAction)
  /-- An edge moves. -/
  | own (id : BlockId) (move : (ring.edge id).Own)

/-- Nothing has run. -/
def initial : ring.State where
  started := fun _ => 0
  block := fun _ => {}
  edge := fun id => (ring.edge id).start
  writes := fun _ _ => []

variable {ring}

/-- The line of an edge. -/
def State.line (state : ring.State) (id : BlockId) : Line UInt8 :=
  (ring.edge id).line (state.edge id)

/-- Every block of the rank has returned. -/
def State.idle (state : ring.State) (rank : ℕ) : Prop :=
  ∀ channel < ring.net.kChannels, (state.block (rank, channel)).live = false

instance (state : ring.State) (rank : ℕ) : Decidable (state.idle rank) :=
  inferInstanceAs (Decidable (∀ channel < ring.net.kChannels, _))

/-- Put an edge into a new state. -/
def State.setEdge (state : ring.State) (id : BlockId) (next : (ring.edge id).State) :
    ring.State :=
  { state with edge := Function.update state.edge id next }

/-- Put a block into a new state. -/
def State.setBlock (state : ring.State) (id : BlockId) (next : PipeBlock) : ring.State :=
  { state with block := Function.update state.block id next }

variable (ring)

/-- A block enters a kernel; it returns at once when its share is empty. -/
def enter (launch : Launch α) (index : ℕ) (id : BlockId) (block : PipeBlock) : PipeBlock :=
  if ring.net.emptyShare launch id.2 then { block with launch := index }
  else { live := true, launch := index, ops := ring.net.ops launch id, slice := {} }

/-- When an action of the current slice operation may happen, as far as the block knows. -/
def guard (slice : SliceProgress) (prim : Prim) : PipeAction → Bool
  | .take => prim.recvs && !slice.taken
  | .move => (!prim.recvs || slice.taken) && !slice.moved
  | .release => prim.recvs && slice.moved && !slice.released
  | .publish => prim.sends && slice.moved && !slice.published
  | .next => slice.moved && (!prim.recvs || slice.released) && (!prim.sends || slice.published)
  | .ret => false

/-- The block after an action of the current slice operation. -/
def advance (block : PipeBlock) (rest : List SliceOp) : PipeAction → PipeBlock
  | .take => { block with slice := { block.slice with taken := true } }
  | .move => { block with slice := { block.slice with moved := true } }
  | .release => { block with slice := { block.slice with released := true } }
  | .publish => { block with slice := { block.slice with published := true } }
  | .next => { block with ops := rest, slice := {} }
  | .ret => block

/-- Bytes of the slice a block has taken. -/
def received (state : ring.State) (id : BlockId) (launch : Launch α) (op : SliceOp) :
    List UInt8 :=
  (ring.edge (ring.net.pred id)).peek (state.edge (ring.net.pred id)) (op.work * launch.dtype.size)

/-- What the pass produces from the bytes of the receive slot. -/
def produced (launch : Launch α) (rank : ℕ) (op : SliceOp) (bytes : List UInt8) (i : ℕ) : α :=
  ring.net.produce launch rank op.prim (op.src + i) (ring.codec.element launch.dtype bytes i)

/-- The pass of a slice operation: it writes the send slot, once the published head leaves room for
it, and the output. -/
def pass (state : ring.State) (id : BlockId) (launch : Launch α) (op : SliceOp) :
    Option ring.State :=
  let value := ring.produced launch id.1 op (ring.received state id launch op)
  let buffer := (id.1, (state.block id).launch)
  let stored := { state with
    writes :=
      if op.prim.stores then
        Function.update state.writes buffer (logged (state.writes buffer) op.dst op.work value)
      else state.writes }
  if op.prim.sends then
    ((ring.edge id).fill (state.edge id) (ring.codec.pack launch.dtype op.work value)).map
      fun next => stored.setEdge id next
  else some stored

/-- What an action does outside the block. -/
def effect (state : ring.State) (id : BlockId) (launch : Launch α) (op : SliceOp) :
    PipeAction → Option ring.State
  | .take =>
      ((ring.edge (ring.net.pred id)).take (state.edge (ring.net.pred id))).map
        fun next => state.setEdge (ring.net.pred id) next
  | .move => ring.pass state id launch op
  | .release =>
      ((ring.edge (ring.net.pred id)).release (state.edge (ring.net.pred id))).map
        fun next => state.setEdge (ring.net.pred id) next
  | .publish =>
      ((ring.edge id).publish (state.edge id)).map fun next => state.setEdge id next
  | .next => some state
  | .ret => none

/-- One step of the ring. -/
def step (state : ring.State) : ring.Label → Option ring.State
  | .launch rank =>
      match ring.net.launches[state.started rank]? with
      | none => none
      | some launch =>
          if rank < ring.net.kRanks ∧ state.idle rank then
            some
              { state with
                started := Function.update state.started rank (state.started rank + 1)
                block := fun id =>
                  if id.1 = rank ∧ id.2 < ring.net.kChannels then
                    ring.enter launch (state.started rank) id (state.block id)
                  else state.block id }
          else none
  | .block id action =>
      let block := state.block id
      if id.1 < ring.net.kRanks ∧ id.2 < ring.net.kChannels ∧ block.live then
        match ring.net.launches[block.launch]?, block.ops with
        | none, _ => none
        | some _, [] =>
            if action = .ret then some (state.setBlock id block.retire) else none
        | some launch, op :: rest =>
            if guard block.slice op.prim action then
              (ring.effect state id launch op action).map fun after =>
                after.setBlock id (advance block rest action)
            else none
      else none
  | .own id move => ((ring.edge id).own (state.edge id) move).map fun next => state.setEdge id next

/-- The states the ring can reach. -/
def Reachable (state : ring.State) : Prop :=
  StepSystem.Reachable ring.step ring.initial state

end PipeRing

end NanoNccl
