import NanoNccl.Kernel.Control
import NanoNccl.Kernel.Rounds
import NanoNccl.Lib.Numbered

/-!
# A ring of one rank

With one rank the only edge leads back to the rank, so the block of a channel consumes what it
produced itself. The steps inside a slice operation keep the orders the barriers leave open, as
in the ring of several ranks. A run follows a queue: slices leave in the order they were sent, and
no slice is overwritten before it was read.
-/

namespace NanoNccl

open KernelRing (ahead SliceOk)

/-- A call on a communicator of one rank. -/
structure SelfRing (α : Type*) where
  /-- Number of channels, one kernel block each. -/
  kChannels : ℕ
  /-- The call. -/
  launch : Launch α
  /-- `slot_elems` -/
  slotElems : ℕ
  /-- `step_elems<T>()` -/
  stepElems : ℕ
  /-- `RedOpTraits<op>::apply` -/
  apply : RedOp → α → α → α
  /-- `scale_avg` by the inverse rank count. -/
  scaleAvg : α → α

/-- A block, and the counters and the FIFO of its edge. -/
structure SelfChannel (α : Type*) where
  block : Block
  head : ℕ
  tail : ℕ
  fifo : ℕ → α

/-- All channels and the output buffer they share. -/
structure SelfState (α : Type*) where
  channel : ℕ → SelfChannel α
  output : ℕ → α

namespace SelfRing

variable {α : Type*} (net : SelfRing α)

/-- Launch arguments of the rank. -/
def args : FifoArgs := ⟨0, net.launch.count, net.slotElems, net.stepElems⟩

/-- The kernel of the call as run by one block. -/
def kernel (channel : ℕ) : Option (List SliceOp) :=
  match net.launch.kind with
  | .allReduce => ringSimpleKernel 1 net.kChannels net.launch.dtype net.args channel
  | .allGather => ringSimpleAllGatherKernel 1 net.kChannels net.launch.dtype net.args channel
  | .reduceScatter =>
      ringSimpleReduceScatterKernel 1 net.kChannels net.launch.dtype net.args channel

/-- `scale_avg` on the last hop, for `Avg` only. -/
def finish (value : α) : α := if net.launch.redop = .avg then net.scaleAvg value else value

/-- What a primitive makes of an element of the input and a received one. -/
def produce (prim : Prim) (j : ℕ) (recv : α) : α :=
  match prim with
  | .directSend | .copyWorker => net.launch.input 0 j
  | .recvReduceSend => net.apply net.launch.redop (net.launch.input 0 j) recv
  | .recvReduceCopySend | .recvReduceCopy =>
      net.finish (net.apply net.launch.redop (net.launch.input 0 j) recv)
  | .recvCopySend | .directRecv => recv

/-- First element of the FIFO slot of a step. -/
def slotOffset (step : ℕ) : ℕ := step % kFifoSteps * net.slotElems

/-- A small slice is reduced in a second pass over data already copied out of the receive slot. -/
def twoPass (op : SliceOp) : Bool := KernelRing.twoPass net.launch op

/-- What the first pass writes: a copy of the receive slot, or the finished value. -/
def firstValue (chan : SelfChannel α) (op : SliceOp) (i : ℕ) : α :=
  let recv := chan.fifo (net.slotOffset chan.block.recvStep + i)
  if net.twoPass op then recv else net.produce op.prim (op.src + i) recv

/-- What the second pass writes, from the copy in the send slot or the output. -/
def secondValue (chan : SelfChannel α) (output : ℕ → α) (op : SliceOp) (i : ℕ) : α :=
  net.produce op.prim (op.src + i)
    (if op.prim.sends then chan.fifo (net.slotOffset chan.block.sendStep + i)
    else output (op.dst + i))

/-- Write a slice to the send slot, where the primitive has one. -/
def send (chan : SelfChannel α) (op : SliceOp) (value : ℕ → α) : ℕ → α :=
  if op.prim.sends then
    Memory.overwrite chan.fifo (net.slotOffset chan.block.sendStep) op.work value
  else chan.fifo

/-- Write a slice to the output buffer. -/
def store (output : ℕ → α) (op : SliceOp) (value : ℕ → α) (stores : Bool) : ℕ → α :=
  if stores then Memory.overwrite output op.dst op.work value else output

/-- The block with other progress inside the slice operation. -/
def progress (chan : SelfChannel α) (slice : SliceState) : SelfChannel α :=
  { chan with block := { chan.block with slice } }

/-- An action of the current slice operation. -/
def act (chan : SelfChannel α) (output : ℕ → α) (op : SliceOp) (rest : List SliceOp) :
    Action → SelfChannel α × (ℕ → α)
  | .pollTail => ({ chan with block := { chan.block with recvTailCache := chan.tail } }, output)
  | .pollHead => ({ chan with block := { chan.block with sendHeadCache := chan.head } }, output)
  | .waitRecv => (progress chan { chan.block.slice with waitedRecv := true }, output)
  | .waitSend => (progress chan { chan.block.slice with waitedSend := true }, output)
  | .move =>
      ({ progress chan { chan.block.slice with moved := true } with
          fifo := net.send chan op (net.firstValue chan op) },
        -- a pass that copies to the send slot leaves the output to the second pass
        store output op (net.firstValue chan op)
          (op.prim.stores && !(net.twoPass op && op.prim.sends)))
  | .reduce =>
      ({ progress chan { chan.block.slice with reduced := true } with
          fifo := net.send chan op (net.secondValue chan output op) },
        store output op (net.secondValue chan output op) op.prim.stores)
  | .postHead =>
      ({ progress chan { chan.block.slice with postedHead := true } with
          head := chan.block.recvStep + kSliceSteps }, output)
  | .postTail =>
      ({ progress chan { chan.block.slice with postedTail := true } with
          tail := chan.block.sendStep + kSliceSteps }, output)
  | .next =>
      ({ chan with
          block :=
            { chan.block with
              ops := rest
              slice := {}
              recvStep :=
                if op.prim.recvs then chan.block.recvStep + kSliceSteps else chan.block.recvStep
              sendStep :=
                if op.prim.sends then chan.block.sendStep + kSliceSteps
                else chan.block.sendStep } }, output)
  | .ret => (chan, output)

/-- One step of a block. -/
def step (state : SelfState α) (label : ℕ × Action) : Option (SelfState α) :=
  let chan := state.channel label.1
  if label.1 < net.kChannels ∧ chan.block.live then
    match chan.block.ops with
    | [] =>
        if label.2 = .ret then
          some { state with
            channel := Function.update state.channel label.1
              { chan with block := KernelRing.retire chan.block } }
        else none
    | op :: rest =>
        if KernelRing.guard net.launch chan.block op label.2 then
          let next := net.act chan state.output op rest label.2
          some ⟨Function.update state.channel label.1 next.1, next.2⟩
        else none
  else none

/-- The blocks have entered the kernel with drained counters: head, tail, caches and both steps of
an edge agree. A block whose share is empty has no slice operations. -/
def initial (base : ℕ → ℕ) (fifo : ℕ → ℕ → α) (output : ℕ → α) : SelfState α where
  channel := fun channel =>
    { block :=
        { live := true
          ops := (net.kernel channel).getD []
          sendStep := base channel
          recvStep := base channel
          sendHeadCache := base channel
          recvTailCache := base channel
          sendBase := base channel
          recvBase := base channel }
      head := base channel
      tail := base channel
      fifo := fifo channel }
  output := output

/-- Every block has returned. -/
def Returned (state : SelfState α) : Prop :=
  ∀ channel < net.kChannels, (state.channel channel).block.live = false

/-! ### Slices in a queue -/

/-- Slices on the way, as size and content, oldest first. -/
abbrev Queue (α : Type*) := List (ℕ × (ℕ → α))

/-- What an operation receives, and the slices left. -/
def take (op : SliceOp) (queue : Queue α) : Option ((ℕ → α) × Queue α) :=
  if op.prim.recvs then
    match queue with
    | [] => none
    | (work, value) :: later => if work = op.work then some (value, later) else none
  else some (net.launch.input 0, queue)

/-- What an operation leaves behind. -/
def leave (op : SliceOp) (recv : ℕ → α) (later : Queue α) (output : ℕ → α) : Queue α × (ℕ → α) :=
  let value := fun i => net.produce op.prim (op.src + i) (recv i)
  (if op.prim.sends then later ++ [(op.work, value)] else later,
    store output op value op.prim.stores)

/-- Slice operations over a queue of slices. -/
def replay : List SliceOp → Queue α × (ℕ → α) → Option (Queue α × (ℕ → α))
  | [], left => some left
  | op :: ops, (queue, output) =>
      (net.take op queue).bind fun taken => replay ops (net.leave op taken.1 taken.2 output)

/-! ### A block follows the queue -/

/-- The FIFO holds the slices of a queue from a step on. -/
def SlotsHold (fifo : ℕ → α) (step : ℕ) (queue : Queue α) : Prop :=
  ∀ k work value, queue[k]? = some (work, value) → work ≤ net.slotElems ∧
    ∀ i < work, fifo (net.slotOffset (step + kSliceSteps * k) + i) = value i

/-- What an operation has put down at an index: the copy until the second pass. -/
def current (op : SliceOp) (reduced : Bool) (recv : ℕ → α) (i : ℕ) : α :=
  if net.twoPass op && !reduced then recv i else net.produce op.prim (op.src + i) (recv i)

/-- The output buffer holds what the first pass or both passes wrote. -/
def writes (op : SliceOp) (slice : SliceState) : Bool :=
  slice.moved && op.prim.stores && !(net.twoPass op && op.prim.sends && !slice.reduced)

/-- An operation under way: `recv` is what it receives, `later` the slices behind that and `out`
the output before it. -/
structure Moving (region : ℕ → Prop) (op : SliceOp) (chan : SelfChannel α) (output : ℕ → α)
    (recv : ℕ → α) (later : Queue α) (out : ℕ → α) : Prop where
  received : chan.block.slice.moved = false → op.prim.recvs = true →
    ∀ i < op.work, chan.fifo (net.slotOffset chan.block.recvStep + i) = recv i
  later : net.SlotsHold chan.fifo (chan.block.recvStep + ahead op.prim.recvs) later
  sent : chan.block.slice.moved = true → op.prim.sends = true → ∀ i < op.work,
    chan.fifo (net.slotOffset chan.block.sendStep + i) =
      net.current op chan.block.slice.reduced recv i
  stored : ∀ j, region j → output j =
    store out op (net.current op chan.block.slice.reduced recv)
      (net.writes op chan.block.slice) j

/-- The operation stays in its slot and in the region of the output that belongs to the block. -/
structure Fits (region : ℕ → Prop) (op : SliceOp) : Prop where
  slot : op.prim.sends = true → op.work ≤ net.slotElems
  region : op.prim.stores = true → ∀ i < op.work, region (op.dst + i)

/-- The memory of the block between operations, or during one. -/
def Data (region : ℕ → Prop) (chan : SelfChannel α) (output : ℕ → α) (queue : Queue α)
    (out : ℕ → α) : Prop :=
  match chan.block.ops with
  | [] => ∀ j, region j → output j = out j
  | op :: _ => SliceOk net.launch op chan.block.slice ∧ ∃ recv later,
      net.take op queue = some (recv, later) ∧ net.Moving region op chan output recv later out

/-- A block whose remaining operations lead to `target` from what it holds. -/
structure Follows (region : ℕ → Prop) (target : Queue α × (ℕ → α)) (chan : SelfChannel α)
    (output : ℕ → α) (queue : Queue α) (out : ℕ → α) : Prop where
  live : chan.block.live = false → chan.block.ops = []
  replays : net.replay chan.block.ops (queue, out) = some target
  fits : ∀ op ∈ chan.block.ops, net.Fits region op
  steps : chan.block.sendStep = chan.block.recvStep + kSliceSteps * queue.length
  head : chan.head = chan.block.recvStep + ahead chan.block.slice.postedHead
  cache : chan.block.sendHeadCache ≤ chan.head
  waited : chan.block.slice.waitedSend = true →
    chan.block.sendStep + kSliceSteps ≤ chan.block.recvStep + kFifoSteps
  data : net.Data region chan output queue out

section Follows

variable {net} {region : ℕ → Prop} {target : Queue α × (ℕ → α)} {chan : SelfChannel α}
  {output out recv : ℕ → α} {queue later : Queue α} {op : SliceOp} {rest : List SliceOp}

theorem produce_of_not_recvs {prim : Prim} (silent : prim.recvs = false) (j : ℕ)
    (first second : α) :
    net.produce prim j first = net.produce prim j second := by
  cases prim <;> first | rfl | cases silent

theorem recvs_of_twoPass (passes : net.twoPass op = true) : op.prim.recvs = true := by
  unfold twoPass KernelRing.twoPass at passes
  cases prim : op.prim <;> simp_all [Prim.reduces, Prim.recvs]

theorem stores_of_twoPass (passes : net.twoPass op = true) (silent : op.prim.sends = false) :
    op.prim.stores = true := by
  unfold twoPass KernelRing.twoPass at passes
  cases prim : op.prim <;> simp_all [Prim.reduces, Prim.sends, Prim.stores]

theorem store_congr {value other : ℕ → α} (stores : Bool) (same : ∀ i < op.work, value i = other i)
    {j : ℕ} (before : output j = out j) :
    store output op value stores j = store out op other stores j := by
  unfold store
  split
  · unfold Memory.overwrite
    split
    · rename_i inside
      exact same _ (by omega)
    · exact before
  · exact before

/-- Writing a slice again leaves what the second write put down. -/
theorem store_store {value other : ℕ → α} (stores : Bool) (j : ℕ) :
    store (store out op value stores) op other true j = store out op other true j := by
  cases stores with
  | false => rfl
  | true =>
      simp only [store, if_true, Memory.overwrite]
      split <;> rfl

/-- The send slot is none of the slots of the slices on the way. -/
theorem SlotsHold.send {step : ℕ} {value : ℕ → α} (held : net.SlotsHold chan.fifo step later)
    (fits : op.prim.sends = true → op.work ≤ net.slotElems)
    (free : op.prim.sends = true →
      chan.block.sendStep + kSliceSteps ≤ chan.block.recvStep + kFifoSteps)
    (start : chan.block.recvStep ≤ step)
    (stop : step + kSliceSteps * later.length ≤ chan.block.sendStep) :
    net.SlotsHold (net.send chan op value) step later := by
  intro k work content found
  obtain ⟨small, holds⟩ := held k work content found
  refine ⟨small, fun i inside => ?_⟩
  have among : k < later.length := (List.getElem?_eq_some_iff.mp found).1
  unfold SelfRing.send
  split
  · rename_i sends
    have room := free sends
    have distinct : chan.block.sendStep % kFifoSteps ≠
        (step + kSliceSteps * k) % kFifoSteps := by
      refine Memory.mod_ne_of_window chan.block.recvStep ?_ ?_ ?_ ?_ ?_ <;>
        simp only [kSliceSteps, kFifoSteps] at * <;> omega
    rw [← holds i inside]
    exact Memory.overwrite_other_slot chan.fifo distinct (fits sends) value (by omega)
  · exact holds i inside

theorem send_sent {value : ℕ → α} (sends : op.prim.sends = true) {i : ℕ} (inside : i < op.work) :
    net.send chan op value (net.slotOffset chan.block.sendStep + i) = value i := by
  rw [SelfRing.send, if_pos sends]
  exact Memory.overwrite_inside _ _ _ _ inside

theorem sliceOk_act {action : Action} (output : ℕ → α) (rest : List SliceOp)
    (ok : SliceOk net.launch op chan.block.slice)
    (enabled : KernelRing.guard net.launch chan.block op action = true) (stays : action ≠ .next) :
    SliceOk net.launch op (net.act chan output op rest action).1.block.slice := by
  obtain ⟨recvOk, sendOk, reducedOk, headOk, tailOk⟩ := ok
  cases action <;>
    simp only [KernelRing.guard, SelfRing.act, progress, Bool.and_eq_true, Bool.or_eq_true,
      Bool.not_eq_true', reduceCtorEq] at enabled ⊢
  case next => exact absurd rfl stays
  all_goals constructor <;> grind

/-- What the first pass of an operation puts down. -/
theorem Moving.firstValue_eq (moving : net.Moving region op chan output recv later out)
    (fresh : chan.block.slice.moved = false) {i : ℕ} (inside : i < op.work) :
    net.firstValue chan op i = net.current op false recv i := by
  cases receives : op.prim.recvs with
  | true => simp [firstValue, current, moving.received fresh receives i inside]
  | false =>
      have single : net.twoPass op = false :=
        Bool.eq_false_iff.mpr fun passes => by simp [recvs_of_twoPass passes] at receives
      simp only [firstValue, current, single, Bool.false_and, Bool.false_eq_true, if_false]
      exact produce_of_not_recvs receives _ _ _

/-- What the second pass of an operation puts down. -/
theorem Moving.secondValue_eq (moving : net.Moving region op chan output recv later out)
    (fits : net.Fits region op) (moved : chan.block.slice.moved = true)
    (passes : net.twoPass op = true) (fresh : chan.block.slice.reduced = false) {i : ℕ}
    (inside : i < op.work) :
    net.secondValue chan output op i = net.current op true recv i := by
  have copied : (if op.prim.sends then chan.fifo (net.slotOffset chan.block.sendStep + i)
      else output (op.dst + i)) = recv i := by
    cases sends : op.prim.sends with
    | true =>
        rw [if_pos rfl, moving.sent moved sends i inside]
        simp [current, passes, fresh]
    | false =>
        have stores := stores_of_twoPass passes sends
        rw [if_neg Bool.false_ne_true, moving.stored _ (fits.region stores i inside)]
        simp [store, writes, moved, stores, sends, fresh, current, passes,
          Memory.overwrite_inside _ _ _ _ inside]
  simp [secondValue, current, copied]

theorem Moving.move (moving : net.Moving region op chan output recv later out)
    (fits : net.Fits region op) (steps : chan.block.recvStep + ahead op.prim.recvs +
      kSliceSteps * later.length = chan.block.sendStep)
    (free : op.prim.sends = true →
      chan.block.sendStep + kSliceSteps ≤ chan.block.recvStep + kFifoSteps)
    (ok : SliceOk net.launch op chan.block.slice) (fresh : chan.block.slice.moved = false) :
    net.Moving region op (net.act chan output op rest .move).1
      (net.act chan output op rest .move).2 recv later out := by
  have unreduced : chan.block.slice.reduced = false :=
    Bool.eq_false_iff.mpr fun reduced => by simp [(ok.reduced reduced).1] at fresh
  have value {i : ℕ} (inside : i < op.work) := moving.firstValue_eq fresh inside
  refine ⟨fun unmoved => by simp [act, progress] at unmoved,
    moving.later.send fits.slot free (Nat.le_add_right _ _) (Nat.le_of_eq steps),
    fun _ sends i inside => ?_, fun j inside => ?_⟩
  · simp only [act, progress, unreduced]
    exact (send_sent sends inside).trans (value inside)
  · have before := moving.stored j inside
    simp only [writes, fresh, Bool.false_and, store, Bool.false_eq_true, if_false] at before
    simp only [act, progress, writes, unreduced, Bool.true_and, Bool.not_false, Bool.and_true]
    exact store_congr _ (fun i within => value within) before

theorem Moving.reduce (moving : net.Moving region op chan output recv later out)
    (fits : net.Fits region op) (steps : chan.block.recvStep + ahead op.prim.recvs +
      kSliceSteps * later.length = chan.block.sendStep)
    (free : op.prim.sends = true →
      chan.block.sendStep + kSliceSteps ≤ chan.block.recvStep + kFifoSteps)
    (moved : chan.block.slice.moved = true) (passes : net.twoPass op = true)
    (fresh : chan.block.slice.reduced = false) :
    net.Moving region op (net.act chan output op rest .reduce).1
      (net.act chan output op rest .reduce).2 recv later out := by
  have value {i : ℕ} (inside : i < op.work) :=
    moving.secondValue_eq fits moved passes fresh inside
  refine ⟨fun unmoved => by simp [act, progress, moved] at unmoved,
    moving.later.send fits.slot free (Nat.le_add_right _ _) (Nat.le_of_eq steps),
    fun _ sends i inside => ?_, fun j inside => ?_⟩
  · simp only [act, progress]
    exact (send_sent sends inside).trans (value inside)
  · simp only [act, progress, writes, moved, Bool.true_and, Bool.not_true, Bool.and_false,
      Bool.not_false, Bool.and_true]
    cases stores : op.prim.stores with
    | true =>
        have rewritten := store_congr true (fun i within => value within) (moving.stored j inside)
        exact rewritten.trans (store_store _ j)
    | false =>
        have before := moving.stored j inside
        simp only [writes, stores, Bool.and_false, Bool.false_and, store, Bool.false_eq_true,
          if_false] at before ⊢
        exact before

/-- What is received, and what is left behind it. -/
theorem take_cases (taken : net.take op queue = some (recv, later)) :
    (op.prim.recvs = true ∧ queue = (op.work, recv) :: later) ∨
      op.prim.recvs = false ∧ later = queue := by
  unfold take at taken
  split at taken
  · rename_i receives
    split at taken
    · cases taken
    · split at taken
      · rename_i same
        obtain ⟨rfl, rfl⟩ := Prod.mk.inj (Option.some.inj taken)
        exact .inl ⟨receives, by rw [same]⟩
      · cases taken
  · rename_i silent
    obtain ⟨-, rfl⟩ := Prod.mk.inj (Option.some.inj taken)
    exact .inr ⟨Bool.eq_false_iff.mpr silent, rfl⟩

theorem length_take (taken : net.take op queue = some (recv, later)) (step : ℕ) :
    step + kSliceSteps * queue.length =
      step + ahead op.prim.recvs + kSliceSteps * later.length := by
  rcases take_cases taken with ⟨receives, rfl⟩ | ⟨silent, rfl⟩
  · simp only [receives, KernelRing.ahead_true, List.length_cons]
    ring
  · simp [silent]

/-- A block between two operations holds what the next one needs. -/
theorem data_of_fresh (held : net.SlotsHold chan.fifo chan.block.recvStep queue)
    (replays : net.replay chan.block.ops (queue, out) = some target)
    (fresh : chan.block.slice = {}) (same : ∀ j, region j → output j = out j) :
    net.Data region chan output queue out := by
  unfold Data
  cases ops : chan.block.ops with
  | nil => exact same
  | cons op rest =>
      rw [ops] at replays
      obtain ⟨⟨recv, later⟩, taken, -⟩ := Option.bind_eq_some_iff.mp replays
      refine ⟨fresh ▸ SliceOk.fresh _ _, recv, later, taken, ?_, ?_, ?_, ?_⟩
      · intro _ receives i inside
        rcases take_cases taken with ⟨-, rfl⟩ | ⟨silent, -⟩
        · exact (held 0 op.work recv rfl).2 i inside
        · simp [receives] at silent
      · intro k work content found
        rcases take_cases taken with ⟨receives, rfl⟩ | ⟨silent, rfl⟩
        · have next := held (k + 1) work content found
          have shift : chan.block.recvStep + kSliceSteps * (k + 1) =
              chan.block.recvStep + ahead op.prim.recvs + kSliceSteps * k := by
            rw [receives, KernelRing.ahead_true]
            ring
          rwa [shift] at next
        · simpa [silent] using held k work content found
      · simp [fresh]
      · intro j inside
        simp [fresh, writes, store, same j inside]

theorem current_of_done {reduced : Bool} (done : net.twoPass op = true → reduced = true) :
    net.current op reduced recv = fun i => net.produce op.prim (op.src + i) (recv i) := by
  funext i
  cases passes : net.twoPass op with
  | false => simp [current, passes]
  | true => simp [current, done passes]

/-- The FIFO holds what an operation leaves behind. -/
theorem Moving.left (moving : net.Moving region op chan output recv later out)
    (fits : net.Fits region op) (steps : chan.block.recvStep + ahead op.prim.recvs +
      kSliceSteps * later.length = chan.block.sendStep)
    (moved : chan.block.slice.moved = true)
    (done : net.twoPass op = true → chan.block.slice.reduced = true) :
    net.SlotsHold chan.fifo (chan.block.recvStep + ahead op.prim.recvs)
      (net.leave op recv later out).1 := by
  simp only [leave]
  cases sends : op.prim.sends with
  | false => exact moving.later
  | true =>
      intro k work content found
      rw [if_pos rfl] at found
      rcases Queue.getElem?_concat_eq_some_iff.mp found with among | ⟨rfl, joined⟩
      · exact moving.later k work content among
      · obtain ⟨rfl, rfl⟩ := Prod.mk.inj joined
        refine ⟨fits.slot sends, fun i inside => ?_⟩
        rw [steps, moving.sent moved sends i inside, current_of_done done]

theorem Moving.left_output (moving : net.Moving region op chan output recv later out)
    (moved : chan.block.slice.moved = true)
    (done : net.twoPass op = true → chan.block.slice.reduced = true) {j : ℕ} (inside : region j) :
    output j = (net.leave op recv later out).2 j := by
  rw [moving.stored j inside, current_of_done done]
  cases passes : net.twoPass op with
  | false => simp [leave, writes, moved, passes]
  | true => simp [leave, writes, moved, passes, done passes]

theorem data_cons (ops : chan.block.ops = op :: rest)
    (data : net.Data region chan output queue out) :
    SliceOk net.launch op chan.block.slice ∧ ∃ recv later,
      net.take op queue = some (recv, later) ∧
        net.Moving region op chan output recv later out := by
  unfold Data at data
  rw [ops] at data
  exact data

theorem data_of_moving (ops : chan.block.ops = op :: rest)
    (ok : SliceOk net.launch op chan.block.slice) (taken : net.take op queue = some (recv, later))
    (moving : net.Moving region op chan output recv later out) :
    net.Data region chan output queue out := by
  unfold Data
  rw [ops]
  exact ⟨ok, recv, later, taken, moving⟩

/-- The last action of an operation hands over to the operations behind it. -/
theorem Follows.next (follows : net.Follows region target chan output queue out)
    (ops : chan.block.ops = op :: rest)
    (enabled : KernelRing.guard net.launch chan.block op .next = true) :
    ∃ queue' out', net.Follows region target (net.act chan output op rest .next).1 output
      queue' out' := by
  obtain ⟨ok, recv, later, taken, moving⟩ := data_cons ops follows.data
  have steps := (length_take taken chan.block.recvStep).symm.trans follows.steps.symm
  have fits := follows.fits op (by rw [ops]; exact List.mem_cons_self)
  simp only [KernelRing.guard, Bool.and_eq_true, Bool.or_eq_true, Bool.not_eq_true'] at enabled
  obtain ⟨⟨⟨moved, passes⟩, headed⟩, -⟩ := enabled
  have done (two : net.twoPass op = true) : chan.block.slice.reduced = true := by
    rcases passes with single | reduced
    · exact absurd two (by simpa [twoPass] using single)
    · exact reduced
  have posted : chan.block.slice.postedHead = op.prim.recvs := by
    cases receives : op.prim.recvs with
    | true => simpa [receives] using headed
    | false =>
        exact Bool.eq_false_iff.mpr fun early => by simpa [receives] using (ok.postedHead early).2
  have replays : net.replay rest (net.leave op recv later out) = some target := by
    have whole := follows.replays
    rw [ops, replay, taken] at whole
    exact whole
  have recvStep : (if op.prim.recvs = true then chan.block.recvStep + kSliceSteps
      else chan.block.recvStep) = chan.block.recvStep + ahead op.prim.recvs := by
    cases op.prim.recvs <;> rfl
  have alive : chan.block.live ≠ false := fun returned => by
    rw [follows.live returned] at ops
    cases ops
  refine ⟨(net.leave op recv later out).1, (net.leave op recv later out).2,
    fun returned => absurd returned alive, replays,
    fun other among => follows.fits other (by rw [ops]; exact List.mem_cons_of_mem _ among),
    ?_, ?_, follows.cache, by simp [act], ?_⟩
  · simp only [act, recvStep, leave]
    rw [← steps]
    cases op.prim.sends
    · simp
    · simp only [if_true, List.length_append, List.length_singleton]
      ring
  · simp only [act, recvStep, KernelRing.ahead_false, Nat.add_zero]
    rw [follows.head, posted]
  · refine data_of_fresh ?_ replays rfl fun j inside => moving.left_output moved done inside
    simp only [act, recvStep]
    exact moving.left fits steps moved done

/-- An action keeps a block on its way. -/
theorem Follows.act {action : Action} (follows : net.Follows region target chan output queue out)
    (ops : chan.block.ops = op :: rest)
    (enabled : KernelRing.guard net.launch chan.block op action = true) :
    ∃ queue' out', net.Follows region target (net.act chan output op rest action).1
      (net.act chan output op rest action).2 queue' out' := by
  by_cases last : action = .next
  · subst last
    exact follows.next ops enabled
  obtain ⟨ok, recv, later, taken, moving⟩ := data_cons ops follows.data
  have steps := (length_take taken chan.block.recvStep).symm.trans follows.steps.symm
  have fits := follows.fits op (by rw [ops]; exact List.mem_cons_self)
  have ok' := sliceOk_act output rest ok enabled last
  obtain ⟨live, replays, all_fit, counted, head, cache, waited, -⟩ := follows
  refine ⟨queue, out, ?_⟩
  cases action with
  | next => exact absurd rfl last
  | ret => exact ⟨live, replays, all_fit, counted, head, cache, waited,
      data_of_moving ops ok' taken moving⟩
  | pollTail | waitRecv =>
      exact ⟨live, replays, all_fit, counted, head, cache, waited, data_of_moving ops ok' taken
        ⟨moving.received, moving.later, moving.sent, moving.stored⟩⟩
  | pollHead =>
      exact ⟨live, replays, all_fit, counted, head, Nat.le_refl _, waited,
        data_of_moving ops ok' taken
        ⟨moving.received, moving.later, moving.sent, moving.stored⟩⟩
  | waitSend =>
      refine ⟨live, replays, all_fit, counted, head, cache, fun _ => ?_,
        data_of_moving ops ok' taken
        ⟨moving.received, moving.later, moving.sent, moving.stored⟩⟩
      simp only [KernelRing.guard, Bool.and_eq_true, Bool.not_eq_true', decide_eq_false_iff_not]
        at enabled
      obtain ⟨⟨sends, first⟩, covered⟩ := enabled
      have unposted : chan.block.slice.postedHead = false :=
        Bool.eq_false_iff.mpr fun posted => by
          simp [ok.moved_send (ok.postedHead posted).1 sends] at first
      rw [unposted, KernelRing.ahead_false, Nat.add_zero] at head
      simp only [SelfRing.act, progress]
      omega
  | move =>
      simp only [KernelRing.guard, Bool.and_eq_true, Bool.or_eq_true, Bool.not_eq_true']
        at enabled
      obtain ⟨⟨-, sent⟩, fresh⟩ := enabled
      have free (sends : op.prim.sends = true) := waited (by simpa [sends] using sent)
      exact ⟨live, replays, all_fit, counted, head, cache, waited,
        data_of_moving ops ok' taken (moving.move fits steps free ok fresh)⟩
  | reduce =>
      simp only [KernelRing.guard, Bool.and_eq_true, Bool.not_eq_true'] at enabled
      obtain ⟨⟨passes, moved⟩, fresh⟩ := enabled
      have free (sends : op.prim.sends = true) := waited (ok.moved_send moved sends)
      exact ⟨live, replays, all_fit, counted, head, cache, waited,
        data_of_moving ops ok' taken (moving.reduce fits steps free moved passes fresh)⟩
  | postHead =>
      simp only [KernelRing.guard, Bool.and_eq_true, Bool.not_eq_true'] at enabled
      refine ⟨live, replays, all_fit, counted, rfl, ?_, waited, data_of_moving ops ok' taken
        ⟨moving.received, moving.later, moving.sent, moving.stored⟩⟩
      rw [enabled.2, KernelRing.ahead_false, Nat.add_zero] at head
      simp only [SelfRing.act, progress]
      omega
  | postTail =>
      exact ⟨live, replays, all_fit, counted, head, cache, waited, data_of_moving ops ok' taken
        ⟨moving.received, moving.later, moving.sent, moving.stored⟩⟩

/-- Writes outside the region of a block do not concern it. -/
theorem Follows.frame (follows : net.Follows region target chan output queue out)
    {output' : ℕ → α} (same : ∀ j, region j → output' j = output j) :
    net.Follows region target chan output' queue out := by
  obtain ⟨live, replays, all_fit, counted, head, cache, waited, data⟩ := follows
  refine ⟨live, replays, all_fit, counted, head, cache, waited, ?_⟩
  cases ops : chan.block.ops with
  | nil =>
      unfold Data at data ⊢
      rw [ops] at data ⊢
      exact fun j inside => (same j inside).trans (data j inside)
  | cons op rest =>
      obtain ⟨ok, recv, later, taken, moving⟩ := data_cons ops data
      exact data_of_moving ops ok taken ⟨moving.received, moving.later, moving.sent,
        fun j inside => (same j inside).trans (moving.stored j inside)⟩

theorem store_of_not_region {value : ℕ → α} {stores : Bool} (fits : net.Fits region op)
    (own : stores = true → op.prim.stores = true) {j : ℕ} (outside : ¬ region j) :
    store output op value stores j = output j := by
  unfold store
  split
  · rename_i writing
    refine Memory.overwrite_outside _ _ _ _ (Decidable.or_iff_not_not_and_not.mpr fun inside => ?_)
    have cell : op.dst + (j - op.dst) = j := by omega
    exact outside (cell ▸ fits.region (own writing) (j - op.dst) (by omega))
  · rfl

/-- An action writes to the output inside the region of its block only. -/
theorem act_output (fits : net.Fits region op) (action : Action) {j : ℕ} (outside : ¬ region j) :
    (net.act chan output op rest action).2 j = output j := by
  cases action with
  | move =>
      refine store_of_not_region fits (fun writing => ?_) outside
      simp only [Bool.and_eq_true] at writing
      exact writing.1
  | reduce => exact store_of_not_region fits id outside
  | pollTail | pollHead | waitRecv | waitSend | postHead | postTail | next | ret => rfl

end Follows

/-! ### Runs -/

section Runs

variable {net} {state state' : SelfState α} {region : ℕ → ℕ → Prop}
  {target : ℕ → Queue α × (ℕ → α)}

/-- What a step of a block does. -/
theorem step_cases {channel : ℕ} {action : Action}
    (stepped : net.step state (channel, action) = some state') :
    channel < net.kChannels ∧
      (((state.channel channel).block.ops = [] ∧
          state' = { state with
            channel := Function.update state.channel channel
              { state.channel channel with
                block := KernelRing.retire (state.channel channel).block } }) ∨
        ∃ op rest, (state.channel channel).block.ops = op :: rest ∧
          KernelRing.guard net.launch (state.channel channel).block op action = true ∧
          state' =
            ⟨Function.update state.channel channel
                (net.act (state.channel channel) state.output op rest action).1,
              (net.act (state.channel channel) state.output op rest action).2⟩) := by
  simp only [step] at stepped
  split at stepped
  · rename_i allowed
    refine ⟨allowed.1, ?_⟩
    cases ops : (state.channel channel).block.ops with
    | nil =>
        simp only [ops] at stepped
        split at stepped
        · exact .inl ⟨rfl, (Option.some.inj stepped).symm⟩
        · cases stepped
    | cons op rest =>
        simp only [ops] at stepped
        split at stepped
        · rename_i enabled
          exact .inr ⟨op, rest, rfl, enabled, (Option.some.inj stepped).symm⟩
        · cases stepped
  · cases stepped

/-- Every block is on its way to its own target. -/
def AllFollow (net : SelfRing α) (region : ℕ → ℕ → Prop) (target : ℕ → Queue α × (ℕ → α))
    (state : SelfState α) : Prop :=
  ∀ channel < net.kChannels, ∃ queue out,
    net.Follows (region channel) (target channel) (state.channel channel) state.output queue out

theorem AllFollow.step {label : ℕ × Action}
    (apart : ∀ first < net.kChannels, ∀ second < net.kChannels, first ≠ second →
      ∀ j, region first j → ¬ region second j)
    (follow : AllFollow net region target state) (stepped : net.step state label = some state') :
    AllFollow net region target state' := by
  obtain ⟨channel, action⟩ := label
  obtain ⟨inside, ⟨ops, rfl⟩ | ⟨op, rest, ops, enabled, rfl⟩⟩ := step_cases stepped
  · intro other other_lt
    obtain ⟨queue, out, follows⟩ := follow other other_lt
    refine ⟨queue, out, ?_⟩
    by_cases same : other = channel
    · subst same
      simp only [Function.update_self]
      obtain ⟨-, replays, all_fit, counted, head, cache, waited, data⟩ := follows
      refine ⟨fun _ => ops, replays, all_fit, counted, head, cache, waited, ?_⟩
      unfold Data at data ⊢
      rw [ops] at data
      simpa only [KernelRing.retire, ops] using data
    · simpa only [Function.update_of_ne same] using follows
  · obtain ⟨queue, out, follows⟩ := follow channel inside
    have fits := follows.fits op (by rw [ops]; exact List.mem_cons_self)
    intro other other_lt
    by_cases same : other = channel
    · subst same
      simpa only [Function.update_self] using follows.act ops enabled
    · obtain ⟨queue', out', others⟩ := follow other other_lt
      refine ⟨queue', out', ?_⟩
      simp only [Function.update_of_ne same]
      exact others.frame fun j member =>
        act_output fits action (apart other other_lt channel inside same j member)

/-- When all blocks have returned, the output holds what the queues lead to. -/
theorem returned_output (region : ℕ → ℕ → Prop) (target : ℕ → Queue α × (ℕ → α))
    {base : ℕ → ℕ} {fifo : ℕ → ℕ → α} {output : ℕ → α}
    (apart : ∀ first < net.kChannels, ∀ second < net.kChannels, first ≠ second →
      ∀ j, region first j → ¬ region second j)
    (fits : ∀ channel < net.kChannels, ∀ op ∈ (net.kernel channel).getD [],
      net.Fits (region channel) op)
    (replays : ∀ channel < net.kChannels,
      net.replay ((net.kernel channel).getD []) ([], output) = some (target channel))
    (reach : StepSystem.Reachable net.step (net.initial base fifo output) state)
    (returned : net.Returned state) {channel : ℕ} (inside : channel < net.kChannels) {j : ℕ}
    (member : region channel j) : state.output j = (target channel).2 j := by
  have start : AllFollow net region target (net.initial base fifo output) := by
    intro channel inside
    refine ⟨[], output, by simp [initial], replays channel inside, fits channel inside, rfl, rfl,
      Nat.le_refl _, by simp [initial], ?_⟩
    exact data_of_fresh (fun k work value found => by simp at found) (replays channel inside) rfl
      fun _ _ => rfl
  have follow : AllFollow net region target state :=
    reach.invariant _ (fun _ _ _ follow stepped => follow.step apart stepped) start
  obtain ⟨queue, out, follows⟩ := follow channel inside
  have ops := follows.live (returned channel inside)
  have same := follows.data
  have done := follows.replays
  unfold Data at same
  rw [ops] at same done
  rw [← Option.some.inj done]
  exact same j member

end Runs

end SelfRing
end NanoNccl
