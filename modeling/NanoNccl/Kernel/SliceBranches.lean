import NanoNccl.Kernel.Workers

/-!
# The two branches of a receiving primitive

A primitive that receives and passes on moves a small slice in two passes, to credit its
predecessor early, and a larger one in a single pass. The branches use different workers, which
split the indices differently, and publish between different barriers; they leave the same data,
publish the same counters, credit only what has been read and announce only what has been written.
-/

namespace NanoNccl
namespace SliceBranches

open Threads Workers

variable {α : Type}

/-- What a primitive has at hand when it moves one slice. -/
structure Slice (α : Type) where
  /-- Element type, operation and number of workers. -/
  launch : WorkerLaunch α
  blockDim : ℕ
  /-- `args.recv_fifo` -/
  recvFifo : ℕ
  /-- `args.send_fifo` -/
  sendFifo : ℕ
  /-- `args.slot_elems` -/
  slotElems : ℕ
  /-- `args.send_payload_bytes != nullptr` -/
  sendPayloadBytes : Bool
  recvStep : ℕ
  sendStep : ℕ
  /-- `local + slice_offset` -/
  own : ℕ
  /-- `out + slice_offset` -/
  out : ℕ
  work : ℕ

/-- A code of the block. -/
abbrev BlockCode (α : Type) := Phases α Sign

namespace Slice

variable (slice : Slice α)

/-- The receive slot. -/
def recv : ℕ := slice.recvFifo + slice.recvStep % kFifoSteps * slice.slotElems

/-- The send slot. -/
def dst : ℕ := slice.sendFifo + slice.sendStep % kFifoSteps * slice.slotElems

/-- `work * sizeof(T)` -/
def bytes : ℕ := slice.work * slice.launch.dtype.size

/-- `step + kSliceSteps` on `std::uint64_t` -/
def after (step : ℕ) : ℕ := (step + kSliceSteps) % 2 ^ 64

/-- `blockDim.x - back` on `unsigned int` -/
def fromLast (back : ℕ) : ℕ :=
  if back ≤ slice.blockDim then slice.blockDim - back else slice.blockDim + 2 ^ 32 - back

/-- All threads call a worker. -/
def all (call : WorkerCall) : BlockCode α := [call.program slice.launch slice.work]

/-- One thread runs a code, the others skip it. -/
def onThread (chosen : ℕ) (code : ThreadProgram α Unit) : BlockCode α :=
  [fun thread => if thread = chosen then code else pure ()]

/-- The stores to `send_payload_bytes` and `send_tail`. -/
def announce : ThreadProgram α Unit := do
  (if slice.sendPayloadBytes then
      Program.emit (.payloadBytes (slice.sendStep % kFifoSteps) (slice.bytes % 2 ^ 32))
    else pure ())
  Program.emit (.sendTail (after slice.sendStep))

/-- `post_send_ready` -/
def postSendReady : BlockCode α :=
  Phases.inOrder [barrier, onThread (slice.fromLast 1) slice.announce]

/-- `post_recv_credit` -/
def postRecvCredit : BlockCode α :=
  onThread (slice.fromLast 2) (Program.emit (.recvHead (after slice.recvStep)))

/-- `post_recv_credit_and_send_ready` -/
def postRecvCreditAndSendReady : BlockCode α :=
  Phases.inOrder [barrier,
    onThread (slice.fromLast 2) (Program.emit (.recvHead (after slice.recvStep))),
    onThread (slice.fromLast 1) slice.announce]

/-- The branches of `recv_reduce_send`. -/
def recvReduceSend (early : Bool) : BlockCode α :=
  if early then
    Phases.inOrder
      [slice.all (.copyVolatileWorker slice.recv slice.dst), barrier, slice.postRecvCredit,
        slice.all (.reduceLocalIntoDst false slice.own slice.dst), slice.postSendReady]
  else
    Phases.inOrder
      [slice.all (.reduceVolatileWorker false slice.own slice.recv slice.dst),
        slice.postRecvCreditAndSendReady]

/-- The branches of `recv_reduce_copy_send`. -/
def recvReduceCopySend (early : Bool) : BlockCode α :=
  if early then
    Phases.inOrder
      [slice.all (.copyVolatileWorker slice.recv slice.dst), barrier, slice.postRecvCredit,
        slice.all (.reduceLocalBroadcastWorker slice.own slice.out slice.dst),
        slice.postSendReady]
  else
    Phases.inOrder
      [slice.all (.reduceBroadcastVolatileWorker slice.own slice.recv slice.out slice.dst),
        slice.postRecvCreditAndSendReady]

/-- The branches of `recv_reduce_copy`. -/
def recvReduceCopy (early : Bool) : BlockCode α :=
  if early then
    Phases.inOrder
      [slice.all (.copyVolatileWorker slice.recv slice.out), barrier, slice.postRecvCredit,
        slice.all (.reduceLocalIntoDst true slice.own slice.out)]
  else
    Phases.inOrder
      [slice.all (.reduceVolatileWorker true slice.own slice.recv slice.out), barrier,
        slice.postRecvCredit]

/-- The branches of `recv_copy_send`. -/
def recvCopySend (early : Bool) : BlockCode α :=
  if early then
    Phases.inOrder
      [slice.all (.copyBroadcastVolatileWorker slice.recv slice.out slice.dst), barrier,
        slice.postRecvCredit, slice.postSendReady]
  else
    Phases.inOrder
      [slice.all (.copyBroadcastVolatileWorker slice.recv slice.out slice.dst),
        slice.postRecvCreditAndSendReady]

end Slice

/-- The primitives that have two branches. -/
inductive Primitive
  | recvReduceSend
  | recvReduceCopySend
  | recvReduceCopy
  | recvCopySend
  deriving DecidableEq

namespace Primitive

/-- A branch of a primitive. -/
def branch (slice : Slice α) : Primitive → Bool → BlockCode α
  | .recvReduceSend => slice.recvReduceSend
  | .recvReduceCopySend => slice.recvReduceCopySend
  | .recvReduceCopy => slice.recvReduceCopy
  | .recvCopySend => slice.recvCopySend

/-- The branch the primitive takes, as run by the threads of the block. -/
def code (slice : Slice α) (prim : Primitive) : BlockCode α :=
  prim.branch slice (slice.bytes ≤ kEarlyRecvCreditMaxBytes)

/-- The buffers a primitive reads. -/
def reads (slice : Slice α) : Primitive → List ℕ
  | .recvCopySend => [slice.recv]
  | _ => [slice.own, slice.recv]

/-- The buffers a primitive writes. -/
def writes (slice : Slice α) : Primitive → List ℕ
  | .recvReduceSend => [slice.dst]
  | .recvReduceCopy => [slice.out]
  | .recvReduceCopySend | .recvCopySend => [slice.out, slice.dst]

/-- The primitive fills the send slot. -/
def sends : Primitive → Bool
  | .recvReduceCopy => false
  | _ => true

/-- What a primitive leaves at an index of its destinations. -/
def value (slice : Slice α) (memory : ℕ → α) (prim : Primitive) (i : ℕ) : α :=
  match prim with
  | .recvReduceSend => (reduceTo slice.launch false slice.own slice.recv []).result memory i
  | .recvReduceCopySend | .recvReduceCopy =>
      (reduceTo slice.launch true slice.own slice.recv []).result memory i
  | .recvCopySend => memory (slice.recv + i)

end Primitive

/-- The threads of the block run a code; there are no others. -/
def Runs (slice : Slice α) (code : BlockCode α) :
    (ℕ → α) → List (ℕ × Event α Sign) → (ℕ → α) → Prop :=
  RunsPhases (code.map fun phase thread =>
    if thread < slice.blockDim then phase thread else pure ())

/-! ### Stages -/

/-- What the threads do between two barriers: signals, then a call of a worker. -/
structure Stage where
  signs : ℕ → List Sign
  call : Option WorkerCall

namespace Stage

variable (slice : Slice α) (stage : Stage)

def body (thread : ℕ) : ThreadProgram α Unit := do
  Program.forEach (stage.signs thread) Program.emit
  match stage.call with
  | some call => call.program slice.launch slice.work thread
  | none => pure ()

/-- What the call computes. -/
def mover : Mover α :=
  match stage.call with
  | some call => call.mover slice.launch
  | none => copyTo 0 []

/-- How many elements the call moves. -/
def count : ℕ := if stage.call.isSome then slice.work else 0

/-- The signals of the threads of the block. -/
def given (thread : ℕ) : List Sign := if thread < slice.blockDim then stage.signs thread else []

end Stage

namespace Slice

variable (slice : Slice α)

/-- The signal of `post_recv_credit`. -/
def credits (thread : ℕ) : List Sign :=
  if thread = slice.fromLast 2 then [.recvHead (after slice.recvStep)] else []

/-- The signals of `post_send_ready`. -/
def readies (thread : ℕ) : List Sign :=
  if thread = slice.fromLast 1 then
    (if slice.sendPayloadBytes then
      [.payloadBytes (slice.sendStep % kFifoSteps) (slice.bytes % 2 ^ 32)] else []) ++
      [.sendTail (after slice.sendStep)]
  else []

theorem postRecvCredit_eq :
    slice.postRecvCredit = [fun thread => Program.forEach (slice.credits thread) Program.emit] := by
  unfold postRecvCredit onThread credits
  congr 1
  funext thread
  split <;> simp [Program.forEach]

theorem onThread_announce :
    onThread (slice.fromLast 1) slice.announce =
      [fun thread => Program.forEach (slice.readies thread) Program.emit] := by
  unfold onThread readies announce
  congr 1
  funext thread
  split
  · split <;> simp [Program.forEach]
  · rfl

end Slice

/-- What a branch does between its barriers. -/
def Primitive.stages (slice : Slice α) : Primitive → Bool → List Stage
  | .recvReduceSend, true =>
      [⟨fun _ => [], some (.copyVolatileWorker slice.recv slice.dst)⟩,
        ⟨slice.credits, some (.reduceLocalIntoDst false slice.own slice.dst)⟩,
        ⟨slice.readies, none⟩]
  | .recvReduceSend, false =>
      [⟨fun _ => [], some (.reduceVolatileWorker false slice.own slice.recv slice.dst)⟩,
        ⟨fun thread => slice.credits thread ++ slice.readies thread, none⟩]
  | .recvReduceCopySend, true =>
      [⟨fun _ => [], some (.copyVolatileWorker slice.recv slice.dst)⟩,
        ⟨slice.credits, some (.reduceLocalBroadcastWorker slice.own slice.out slice.dst)⟩,
        ⟨slice.readies, none⟩]
  | .recvReduceCopySend, false =>
      [⟨fun _ => [],
          some (.reduceBroadcastVolatileWorker slice.own slice.recv slice.out slice.dst)⟩,
        ⟨fun thread => slice.credits thread ++ slice.readies thread, none⟩]
  | .recvReduceCopy, true =>
      [⟨fun _ => [], some (.copyVolatileWorker slice.recv slice.out)⟩,
        ⟨slice.credits, some (.reduceLocalIntoDst true slice.own slice.out)⟩]
  | .recvReduceCopy, false =>
      [⟨fun _ => [], some (.reduceVolatileWorker true slice.own slice.recv slice.out)⟩,
        ⟨slice.credits, none⟩]
  | .recvCopySend, true =>
      [⟨fun _ => [], some (.copyBroadcastVolatileWorker slice.recv slice.out slice.dst)⟩,
        ⟨slice.credits, none⟩, ⟨slice.readies, none⟩]
  | .recvCopySend, false =>
      [⟨fun _ => [], some (.copyBroadcastVolatileWorker slice.recv slice.out slice.dst)⟩,
        ⟨fun thread => slice.credits thread ++ slice.readies thread, none⟩]

theorem branch_eq (slice : Slice α) (prim : Primitive) (early : Bool) :
    prim.branch slice early = (prim.stages slice early).map (Stage.body slice) := by
  have fused : slice.postRecvCreditAndSendReady = [fun _ => pure (), fun thread =>
      Program.forEach (slice.credits thread ++ slice.readies thread) Program.emit] := by
    have credit : Slice.onThread (slice.fromLast 2)
        (Program.emit (.recvHead (Slice.after slice.recvStep))) = _ :=
      slice.postRecvCredit_eq
    rw [Slice.postRecvCreditAndSendReady, credit, slice.onThread_announce]
    simp [Phases.inOrder, Phases.andThen, barrier, Program.forEach_append]
  have ready : slice.postSendReady = [fun _ => pure (), fun thread =>
      Program.forEach (slice.readies thread) Program.emit] := by
    rw [Slice.postSendReady, slice.onThread_announce]
    simp [Phases.inOrder, Phases.andThen, barrier]
  cases prim <;> cases early <;>
    simp [Primitive.branch, Primitive.stages, Slice.recvReduceSend, Slice.recvReduceCopySend,
      Slice.recvReduceCopy, Slice.recvCopySend, fused, ready, slice.postRecvCredit_eq, Slice.all,
      Phases.inOrder, Phases.andThen, barrier, Stage.body, Program.forEach, funext_iff]

/-! ### One stage -/

section Stages

variable {slice : Slice α} {stage : Stage} {memory final : ℕ → α}

/-- The slice is moved by at least one worker, and all of them are threads of the block. -/
structure Slice.Launched (slice : Slice α) : Prop where
  unrolled : 0 < slice.launch.kFloat4Unroll
  workers : 0 < slice.launch.nworkers
  fits : slice.launch.nworkers ≤ slice.blockDim

/-- Between two barriers a block gives the signals and moves what the call moves. -/
theorem Stage.moved (launched : slice.Launched)
    (disjoint : ∀ call ∈ stage.call, call.Disjoint slice.work) {schedule : List ℕ}
    {block : Threads.Block α Sign}
    (execution : StepSystem.exec step (.start memory fun thread =>
      if thread < slice.blockDim then stage.body slice thread else pure ()) schedule = some block)
    (finished : Finished block) :
    (stage.mover slice).Moved (stage.count slice) (stage.given slice) memory block := by
  obtain ⟨signs, called⟩ := stage
  cases called with
  | none =>
      have separated : (mover slice ⟨signs, none⟩).Separated (count slice ⟨signs, none⟩) :=
        ⟨by simp [mover, copyTo], by simp [mover, copyTo]⟩
      have acts (thread : ℕ) : (mover slice ⟨signs, none⟩).Acts
          ((mover slice ⟨signs, none⟩).result memory) (fun _ => False)
          (given slice ⟨signs, none⟩ thread)
          (solo (if thread < slice.blockDim then body slice ⟨signs, none⟩ thread else pure ())
            memory).events := by
        refine ⟨[], ?_, does_nothing _ fun _ => id⟩
        unfold given
        split <;> simp [body, solo_forEach_emit]
      exact moved_of_acts separated acts (fun _ _ => False.elim)
        (fun i inside => absurd inside (Nat.not_lt_zero i)) (fun _ _ _ => False.elim) execution
        finished
  | some call =>
      obtain ⟨owner, owner_lt, does⟩ :=
        call.does launched.unrolled launched.workers (disjoint call rfl)
      have acts (thread : ℕ) : (mover slice ⟨signs, some call⟩).Acts
          ((mover slice ⟨signs, some call⟩).result memory)
          (fun i => i < slice.work ∧ owner i = thread) (given slice ⟨signs, some call⟩ thread)
          (solo (if thread < slice.blockDim then body slice ⟨signs, some call⟩ thread else pure ())
            memory).events := by
        unfold given
        split
        · exact ⟨_, by simp [body, solo_bind, solo_forEach_emit], does memory thread⟩
        · rename_i outside
          refine ⟨[], rfl, does_nothing _ fun i owned => outside ?_⟩
          rw [← owned.2]
          exact Nat.lt_of_lt_of_le (owner_lt i) launched.fits
      exact moved_of_acts (disjoint call rfl).separated acts (fun _ _ owned => owned.1)
        (fun i inside => ⟨owner i, inside, rfl⟩)
        (fun _ _ _ left right => left.2.symm.trans right.2) execution finished

/-- What a stage can do. -/
def Stage.Allows (slice : Slice α) (stage : Stage) (entry : ℕ × Event α Sign) : Prop :=
  (∃ src ∈ (stage.mover slice).source.pointers, ∃ i < stage.count slice, ∃ value,
      entry.2 = .load (src + i) value) ∨
    (∃ dest ∈ (stage.mover slice).dests, ∃ i < stage.count slice, ∃ value,
      entry.2 = .store (dest + i) value) ∨
    ∃ sign ∈ stage.signs entry.1, entry.2 = .signal sign

theorem Stage.allows {block : Threads.Block α Sign}
    (moved : (stage.mover slice).Moved (stage.count slice) (stage.given slice) memory block)
    (entry : ℕ × Event α Sign) (member : entry ∈ block.log) : stage.Allows slice entry := by
  refine (moved.bounded entry member).imp_right (Or.imp ?_ ?_)
  · rintro ⟨dest, at_dest, i, inside, stores⟩
    exact ⟨dest, at_dest, i, inside, _, stores⟩
  · rintro ⟨sign, among, signals⟩
    refine ⟨sign, ?_, signals⟩
    unfold Stage.given at among
    split at among
    · exact among
    · cases among

/-- The first `count` cells of some buffers hold given values, and all other cells are as before. -/
structure Written (dests : List ℕ) (count : ℕ) (value : ℕ → α) (memory final : ℕ → α) : Prop where
  stored : ∀ dest ∈ dests, ∀ i < count, final (dest + i) = value i
  frame : ∀ addr, (∀ dest ∈ dests, ∀ i < count, addr ≠ dest + i) → final addr = memory addr

theorem Written.unique {dests : List ℕ} {count : ℕ} {value : ℕ → α} {other : ℕ → α}
    (written : Written dests count value memory final)
    (again : Written dests count value memory other) : final = other := by
  funext addr
  by_cases within : ∃ dest ∈ dests, ∃ i < count, addr = dest + i
  · obtain ⟨dest, at_dest, i, inside, rfl⟩ := within
    rw [written.stored dest at_dest i inside, again.stored dest at_dest i inside]
  · have outside : ∀ dest ∈ dests, ∀ i < count, addr ≠ dest + i :=
      fun dest at_dest i inside same => within ⟨dest, at_dest, i, inside, same⟩
    rw [written.frame addr outside, again.frame addr outside]

/-- Reducing in place what was copied first is reducing from where it was copied. -/
theorem Written.reduce_copied {launch : WorkerLaunch α} {scaled : Bool} {own recv dst : ℕ}
    {dests : List ℕ} {count : ℕ} {middle : ℕ → α} (among : dst ∈ dests)
    (apart : Apart count own dst)
    (copied : Written [dst] count (fun i => memory (recv + i)) memory middle)
    (reduced : Written dests count
      (fun i => (reduceTo launch scaled own dst dests).result middle i) middle final) :
    Written dests count (fun i => (reduceTo launch scaled own recv []).result memory i) memory
      final := by
  refine ⟨fun dest at_dest i inside => ?_, fun addr outside => ?_⟩
  · have received : middle (dst + i) = memory (recv + i) :=
      copied.stored dst List.mem_cons_self i inside
    have owned : middle (own + i) = memory (own + i) := by
      refine copied.frame _ fun dest at_dest j within => ?_
      obtain rfl := List.mem_singleton.mp at_dest
      exact apart.ne inside within
    rw [reduced.stored dest at_dest i inside]
    simp only [reduceTo, Mover.result, Source.value, received, owned]
  · rw [reduced.frame addr outside]
    refine copied.frame addr fun dest at_dest => ?_
    obtain rfl := List.mem_singleton.mp at_dest
    exact outside dest among

end Stages

/-! ### All stages of a branch -/

section Runs

variable {slice : Slice α} {stage : Stage} {stages earlier later : List Stage}
  {memory final : ℕ → α} {log : List (ℕ × Event α Sign)}

/-- No call of the stages overlaps its own buffers. -/
def StagesDisjoint (slice : Slice α) (stages : List Stage) : Prop :=
  ∀ stage ∈ stages, ∀ call ∈ stage.call, call.Disjoint slice.work

theorem runs_cons (launched : slice.Launched)
    (disjoint : ∀ call ∈ stage.call, call.Disjoint slice.work)
    (runs : Runs slice ((stage :: stages).map (Stage.body slice)) memory log final) :
    ∃ (block : Threads.Block α Sign) (rest : List (ℕ × Event α Sign)), log = block.log ++ rest ∧
      (stage.mover slice).Moved (stage.count slice) (stage.given slice) memory block ∧
      Runs slice (stages.map (Stage.body slice)) block.memory rest final := by
  unfold Runs at runs
  rw [List.map_cons, List.map_cons] at runs
  cases runs with
  | cons execution finished rest =>
      exact ⟨_, _, rfl, Stage.moved launched disjoint execution finished, rest⟩

theorem runs_allows (launched : slice.Launched) (disjoint : StagesDisjoint slice stages)
    (runs : Runs slice (stages.map (Stage.body slice)) memory log final)
    (entry : ℕ × Event α Sign) (member : entry ∈ log) :
    ∃ stage ∈ stages, stage.Allows slice entry := by
  induction stages generalizing memory log with
  | nil =>
      cases runs
      cases member
  | cons stage stages ih =>
      obtain ⟨block, rest, rfl, moved, runs⟩ :=
        runs_cons launched (disjoint stage List.mem_cons_self) runs
      rcases List.mem_append.mp member with now | afterwards
      · exact ⟨stage, List.mem_cons_self, Stage.allows moved entry now⟩
      · obtain ⟨other, among, allows⟩ :=
          ih (fun other among => disjoint other (List.mem_cons_of_mem _ among)) runs afterwards
        exact ⟨other, List.mem_cons_of_mem _ among, allows⟩

/-- A barrier between two kinds of events puts them in order. -/
theorem runs_precede (launched : slice.Launched)
    (disjoint : StagesDisjoint slice (earlier ++ later)) {first second : Event α Sign → Prop}
    (none_yet : ∀ stage ∈ earlier, ∀ entry, stage.Allows slice entry → ¬ second entry.2)
    (no_more : ∀ stage ∈ later, ∀ entry, stage.Allows slice entry → ¬ first entry.2)
    (runs : Runs slice ((earlier ++ later).map (Stage.body slice)) memory log final) :
    Precede first second log := by
  unfold Runs at runs
  rw [List.map_append, List.map_append] at runs
  obtain ⟨middle, log₁, log₂, rfl, before, after⟩ := runs.split
  refine precede_append (fun entry member => ?_) fun entry member => ?_
  · obtain ⟨stage, among, allows⟩ := runs_allows launched
      (fun stage among => disjoint stage (List.mem_append_left _ among)) before entry member
    exact none_yet stage among entry allows
  · obtain ⟨stage, among, allows⟩ := runs_allows launched
      (fun stage among => disjoint stage (List.mem_append_right _ among)) after entry member
    exact no_more stage among entry allows

/-- What only one thread publishes is published as its stages say. -/
theorem runs_published {δ : Type} {pick : Sign → Option δ} {thread : ℕ}
    (launched : slice.Launched) (disjoint : StagesDisjoint slice stages)
    (only : ∀ stage ∈ stages, ∀ other, other ≠ thread →
      (stage.signs other).filterMap pick = [])
    (runs : Runs slice (stages.map (Stage.body slice)) memory log final) :
    published pick log =
      stages.flatMap fun stage => (stage.given slice thread).filterMap pick := by
  induction stages generalizing memory log with
  | nil =>
      cases runs
      rfl
  | cons stage stages ih =>
      obtain ⟨block, rest, rfl, moved, runs⟩ :=
        runs_cons launched (disjoint stage List.mem_cons_self) runs
      have here : published pick block.log = (stage.given slice thread).filterMap pick := by
        rw [← moved.signals thread]
        refine published_eq_ofThread fun other elsewhere => ?_
        rw [moved.signals other, Stage.given]
        split
        · exact only stage List.mem_cons_self other elsewhere
        · rfl
      rw [published_append, here, List.flatMap_cons,
        ih (fun other among => disjoint other (List.mem_cons_of_mem _ among))
          (fun other among => only other (List.mem_cons_of_mem _ among)) runs]

end Runs

/-! ### Both branches -/

/-- The step a store to `recv_head` publishes. -/
def headOf : Sign → Option ℕ
  | .recvHead step => some step
  | _ => none

/-- The step a store to `send_tail` publishes. -/
def tailOf : Sign → Option ℕ
  | .sendTail step => some step
  | _ => none

/-- The entry a store to `send_payload_bytes` publishes. -/
def payloadOf : Sign → Option (ℕ × ℕ)
  | .payloadBytes slot bytes => some (slot, bytes)
  | _ => none

/-- A load from the receive slot. -/
def Slice.Reads (slice : Slice α) (event : Event α Sign) : Prop :=
  ∃ i < slice.work, ∃ value, event = .load (slice.recv + i) value

/-- A store to the send slot. -/
def Slice.Writes (slice : Slice α) (event : Event α Sign) : Prop :=
  ∃ i < slice.work, ∃ value, event = .store (slice.dst + i) value

/-- A store to `recv_head`. -/
def Credits (event : Event α Sign) : Prop := ∃ step, event = .signal (.recvHead step)

/-- A store to `send_tail`. -/
def Announces (event : Event α Sign) : Prop := ∃ step, event = .signal (.sendTail step)

/-- The buffers of a primitive do not overlap. -/
def Primitive.Buffers (slice : Slice α) (prim : Primitive) : Prop :=
  (prim.reads slice ++ prim.writes slice).Pairwise (Apart slice.work)

/-- What a branch does besides moving data: one credit of the received slice, after the last load
from it, and one announcement of the sent slice, after the last store to it. -/
structure Primitive.Posts (slice : Slice α) (prim : Primitive) (log : List (ℕ × Event α Sign)) :
    Prop where
  recvHead : published headOf log =
    if slice.fromLast 2 < slice.blockDim then [Slice.after slice.recvStep] else []
  sendTail : published tailOf log =
    if prim.sends ∧ slice.fromLast 1 < slice.blockDim then [Slice.after slice.sendStep] else []
  payloadBytes : published payloadOf log =
    if prim.sends ∧ slice.fromLast 1 < slice.blockDim ∧ slice.sendPayloadBytes then
      [(slice.sendStep % kFifoSteps, slice.bytes % 2 ^ 32)] else []
  credited : Precede slice.Reads Credits log
  announced : Precede slice.Writes Announces log

section Branches

variable {slice : Slice α} {prim : Primitive} {early : Bool} {memory final : ℕ → α}
  {log : List (ℕ × Event α Sign)}

theorem Apart.symm {count first second : ℕ} (apart : Apart count first second) :
    Apart count second first := Or.symm apart

theorem stages_disjoint (early : Bool) (buffers : prim.Buffers slice) :
    StagesDisjoint slice (prim.stages slice early) := by
  intro stage member call called
  cases prim <;> cases early <;>
    simp only [Primitive.Buffers, Primitive.reads, Primitive.writes, List.cons_append,
      List.nil_append, List.pairwise_cons, List.mem_cons, List.not_mem_nil, or_false,
      forall_eq_or_imp, forall_eq, List.Pairwise.nil, and_true] at buffers <;>
    simp only [Primitive.stages, List.mem_cons, List.not_mem_nil, or_false] at member <;>
    rcases member with rfl | rfl | rfl <;>
    cases called <;>
    constructor <;>
    simp only [WorkerCall.inputs, WorkerCall.outputs, List.mem_cons, List.not_mem_nil, or_false,
      forall_eq_or_imp, forall_eq] <;>
    grind [Apart.symm]

/-- A stage loads nothing from a buffer that its call reads nothing from. -/
theorem Stage.no_load {stage : Stage} {buffer : ℕ}
    (apart : ∀ call ∈ stage.call, ∀ src ∈ (call.mover slice.launch).source.pointers,
      Apart slice.work src buffer)
    {entry : ℕ × Event α Sign} (allows : stage.Allows slice entry) {i : ℕ} (inside : i < slice.work)
    (value : α) : entry.2 ≠ .load (buffer + i) value := by
  intro loads
  rcases allows with ⟨src, source, j, within, _, same⟩ | ⟨_, _, _, _, _, same⟩ | ⟨_, _, same⟩
  · rw [loads] at same
    injection same with address
    obtain ⟨signs, called⟩ := stage
    cases called with
    | none => exact absurd within (Nat.not_lt_zero j)
    | some call => exact (apart call rfl src source).ne within inside address.symm
  · rw [loads] at same
    cases same
  · rw [loads] at same
    cases same

/-- A stage without a call stores nothing. -/
theorem Stage.no_store {signs : ℕ → List Sign} {entry : ℕ × Event α Sign}
    (allows : (⟨signs, none⟩ : Stage).Allows slice entry) (addr : ℕ) (value : α) :
    entry.2 ≠ .store addr value := by
  intro stores
  rcases allows with ⟨_, _, _, _, _, same⟩ | ⟨_, at_dest, _⟩ | ⟨_, _, same⟩
  · rw [stores] at same
    cases same
  · cases at_dest
  · rw [stores] at same
    cases same

theorem Stage.no_signal {stage : Stage} {sign : Sign} {entry : ℕ × Event α Sign}
    (none : ∀ thread, sign ∉ stage.signs thread) (allows : stage.Allows slice entry) :
    entry.2 ≠ .signal sign := by
  intro signals
  rcases allows with ⟨_, _, _, _, _, same⟩ | ⟨_, _, _, _, _, same⟩ | ⟨given, among, same⟩
  · rw [signals] at same
    cases same
  · rw [signals] at same
    cases same
  · rw [signals] at same
    injection same with same
    exact none _ (same ▸ among)

theorem not_mem_credits {thread step : ℕ} : .sendTail step ∉ slice.credits thread := by
  unfold Slice.credits
  split <;> simp

theorem stages_credit (early : Bool) (buffers : prim.Buffers slice) :
    ∃ first rest, prim.stages slice early = [first] ++ rest ∧
      (∀ thread, first.signs thread = []) ∧ ∀ stage ∈ rest, ∀ call ∈ stage.call,
        ∀ src ∈ (call.mover slice.launch).source.pointers, Apart slice.work src slice.recv := by
  cases prim <;> cases early <;>
    simp only [Primitive.Buffers, Primitive.reads, Primitive.writes, List.cons_append,
      List.nil_append, List.pairwise_cons, List.mem_cons, List.not_mem_nil, or_false,
      forall_eq_or_imp, forall_eq, List.Pairwise.nil, and_true] at buffers <;>
    refine ⟨_, _, rfl, fun _ => rfl, ?_⟩ <;>
    intro stage member call called src source <;>
    simp only [List.mem_cons, List.not_mem_nil, or_false] at member <;>
    rcases member with rfl | rfl <;>
    cases called <;>
    simp only [WorkerCall.mover, reduceTo, Source.pointers, List.mem_cons, List.not_mem_nil,
      or_false] at source <;>
    grind [Apart.symm]

theorem stages_announce (slice : Slice α) (prim : Primitive) (early : Bool) :
    ∃ init last, prim.stages slice early = init ++ last ∧
      (∀ stage ∈ init, ∀ thread step, .sendTail step ∉ stage.signs thread) ∧
      ∀ stage ∈ last, stage.call = none := by
  cases prim with
  | recvReduceCopy =>
      refine ⟨_, [], (List.append_nil _).symm, fun stage member thread step => ?_, by simp⟩
      cases early <;>
        simp only [Primitive.stages, List.mem_cons, List.not_mem_nil, or_false] at member <;>
        rcases member with rfl | rfl <;>
        first | exact not_mem_credits | exact List.not_mem_nil
  | recvReduceSend | recvReduceCopySend =>
      cases early with
      | true =>
          refine ⟨[_, _], [_], rfl, fun stage member thread step => ?_, by simp⟩
          simp only [List.mem_cons, List.not_mem_nil, or_false] at member
          rcases member with rfl | rfl
          · exact List.not_mem_nil
          · exact not_mem_credits
      | false => exact ⟨[_], [_], rfl, by simp, by simp⟩
  | recvCopySend =>
      cases early with
      | true => exact ⟨[_], [_, _], rfl, by simp, by simp⟩
      | false => exact ⟨[_], [_], rfl, by simp, by simp⟩

section Published

variable {thread : ℕ}

@[simp] theorem credits_headOf : (slice.credits thread).filterMap headOf =
    if thread = slice.fromLast 2 then [Slice.after slice.recvStep] else [] := by
  unfold Slice.credits
  split <;> rfl

@[simp] theorem credits_tailOf : (slice.credits thread).filterMap tailOf = [] := by
  unfold Slice.credits
  split <;> rfl

@[simp] theorem credits_payloadOf : (slice.credits thread).filterMap payloadOf = [] := by
  unfold Slice.credits
  split <;> rfl

@[simp] theorem readies_headOf : (slice.readies thread).filterMap headOf = [] := by
  unfold Slice.readies
  split
  · split <;> rfl
  · rfl

@[simp] theorem readies_tailOf : (slice.readies thread).filterMap tailOf =
    if thread = slice.fromLast 1 then [Slice.after slice.sendStep] else [] := by
  unfold Slice.readies
  split
  · split <;> rfl
  · rfl

@[simp] theorem readies_payloadOf : (slice.readies thread).filterMap payloadOf =
    if thread = slice.fromLast 1 ∧ slice.sendPayloadBytes then
      [(slice.sendStep % kFifoSteps, slice.bytes % 2 ^ 32)] else [] := by
  unfold Slice.readies
  by_cases here : thread = slice.fromLast 1
  · cases present : slice.sendPayloadBytes <;> simp [here, payloadOf]
  · simp [here]

end Published

/-- Whichever branch is taken, the signals of a thread are the credit and, where the primitive
sends, the announcement. -/
theorem branch_published {δ : Type} {pick : Sign → Option δ} (thread : ℕ)
    (launched : slice.Launched) (buffers : prim.Buffers slice)
    (only : ∀ other, other ≠ thread →
      (slice.credits other).filterMap pick = [] ∧ (slice.readies other).filterMap pick = [])
    (runs : Runs slice (prim.branch slice early) memory log final) :
    published pick log =
      if thread < slice.blockDim then
        (slice.credits thread).filterMap pick ++
          if prim.sends then (slice.readies thread).filterMap pick else []
      else [] := by
  rw [branch_eq] at runs
  have only_thread (stage : Stage) (member : stage ∈ prim.stages slice early) (other : ℕ)
      (elsewhere : other ≠ thread) : (stage.signs other).filterMap pick = [] := by
    obtain ⟨no_credit, no_ready⟩ := only other elsewhere
    cases prim <;> cases early <;>
      simp only [Primitive.stages, List.mem_cons, List.not_mem_nil, or_false] at member <;>
      rcases member with rfl | rfl | rfl <;> simp [no_credit, no_ready]
  rw [runs_published launched (stages_disjoint early buffers) only_thread runs]
  by_cases inside : thread < slice.blockDim <;> cases prim <;> cases early <;>
    simp [Primitive.stages, Stage.given, Primitive.sends, inside]

/-- Whichever branch is taken, the same is published, each after the accesses it covers. -/
theorem branch_posts (launched : slice.Launched) (buffers : prim.Buffers slice)
    (runs : Runs slice (prim.branch slice early) memory log final) : prim.Posts slice log := by
  have disjoint := stages_disjoint early buffers
  constructor
  · rw [branch_published (slice.fromLast 2) launched buffers
      (fun other elsewhere => by simp [elsewhere]) runs]
    simp
  · rw [branch_published (slice.fromLast 1) launched buffers
      (fun other elsewhere => by simp [elsewhere]) runs]
    cases prim.sends <;> simp
  · rw [branch_published (slice.fromLast 1) launched buffers
      (fun other elsewhere => by simp [elsewhere]) runs]
    cases prim.sends <;> by_cases inside : slice.fromLast 1 < slice.blockDim <;> simp [inside]
  · obtain ⟨first, rest, stages, silent, apart⟩ := stages_credit early buffers
    rw [branch_eq, stages] at runs
    rw [stages] at disjoint
    refine runs_precede launched disjoint (fun stage among entry allows => ?_)
      (fun stage among entry allows => ?_) runs
    · obtain rfl := List.mem_singleton.mp among
      rintro ⟨step, credit⟩
      exact Stage.no_signal (fun thread => by simp [silent]) allows credit
    · rintro ⟨i, inside, value, load⟩
      exact Stage.no_load (apart stage among) allows inside value load
  · obtain ⟨init, last, stages, silent, idle⟩ := stages_announce slice prim early
    rw [branch_eq, stages] at runs
    rw [stages] at disjoint
    refine runs_precede launched disjoint (fun stage among entry allows => ?_)
      (fun stage among entry allows => ?_) runs
    · rintro ⟨step, announce⟩
      exact Stage.no_signal (fun thread => silent stage among thread step) allows announce
    · rintro ⟨i, inside, value, store⟩
      obtain ⟨signs, called⟩ := stage
      obtain rfl : called = none := idle _ among
      exact Stage.no_store allows _ value store

/-- Stages without a call leave the memory alone. -/
theorem runs_idle {stages : List Stage} (launched : slice.Launched)
    (idle : ∀ stage ∈ stages, stage.call = none)
    (runs : Runs slice (stages.map (Stage.body slice)) memory log final) : final = memory := by
  induction stages generalizing memory log with
  | nil =>
      cases runs
      rfl
  | cons stage stages ih =>
      obtain ⟨signs, called⟩ := stage
      obtain rfl : called = none := idle _ List.mem_cons_self
      obtain ⟨block, rest, -, moved, runs⟩ :=
        runs_cons launched (fun _ called => by cases called) runs
      rw [ih (fun stage among => idle stage (List.mem_cons_of_mem _ among)) runs]
      exact funext fun addr => moved.frame addr fun dest at_dest => by cases at_dest

/-- A stage with a call leaves what the call computes to the later stages. -/
theorem runs_call {signs : ℕ → List Sign} {call : WorkerCall} {stages : List Stage}
    (launched : slice.Launched) (disjoint : StagesDisjoint slice (⟨signs, some call⟩ :: stages))
    (runs : Runs slice ((⟨signs, some call⟩ :: stages).map (Stage.body slice)) memory log final) :
    ∃ middle rest, Written (call.mover slice.launch).dests slice.work
        ((call.mover slice.launch).result memory) memory middle ∧
      StagesDisjoint slice stages ∧
        Runs slice (stages.map (Stage.body slice)) middle rest final := by
  obtain ⟨block, rest, -, moved, runs⟩ :=
    runs_cons launched (disjoint _ List.mem_cons_self) runs
  exact ⟨block.memory, rest, ⟨moved.stored, moved.frame⟩,
    fun stage among => disjoint stage (List.mem_cons_of_mem _ among), runs⟩

/-- Whichever branch is taken, the destinations hold the value of the primitive. -/
theorem branch_written (launched : slice.Launched) (buffers : prim.Buffers slice)
    (runs : Runs slice (prim.branch slice early) memory log final) :
    Written (prim.writes slice) slice.work (prim.value slice memory) memory final := by
  rw [branch_eq] at runs
  have disjoint := stages_disjoint early buffers
  cases early with
  | false =>
      cases prim with
      | recvReduceSend | recvReduceCopySend | recvReduceCopy | recvCopySend =>
          obtain ⟨middle, rest, moved, -, runs⟩ := runs_call launched disjoint runs
          obtain rfl := runs_idle launched (by simp) runs
          exact moved
  | true =>
      cases prim with
      | recvCopySend =>
          obtain ⟨middle, rest, moved, -, runs⟩ := runs_call launched disjoint runs
          obtain rfl := runs_idle launched (by simp) runs
          exact moved
      | recvReduceSend =>
          obtain ⟨copy, rest, copied, disjoint, runs⟩ := runs_call launched disjoint runs
          obtain ⟨middle, rest, reduced, -, runs⟩ := runs_call launched disjoint runs
          obtain rfl := runs_idle launched (by simp) runs
          have apart : Apart slice.work slice.own slice.dst :=
            List.rel_of_pairwise_cons buffers (by simp [Primitive.writes])
          exact copied.reduce_copied List.mem_cons_self apart reduced
      | recvReduceCopySend =>
          obtain ⟨copy, rest, copied, disjoint, runs⟩ := runs_call launched disjoint runs
          obtain ⟨middle, rest, reduced, -, runs⟩ := runs_call launched disjoint runs
          obtain rfl := runs_idle launched (by simp) runs
          have apart : Apart slice.work slice.own slice.dst :=
            List.rel_of_pairwise_cons buffers (by simp [Primitive.writes])
          exact copied.reduce_copied (by simp [Primitive.writes]) apart reduced
      | recvReduceCopy =>
          obtain ⟨copy, rest, copied, disjoint, runs⟩ := runs_call launched disjoint runs
          obtain ⟨middle, rest, reduced, -, runs⟩ := runs_call launched disjoint runs
          obtain rfl := runs_idle launched (by simp) runs
          have apart : Apart slice.work slice.own slice.out :=
            List.rel_of_pairwise_cons buffers (by simp [Primitive.writes])
          exact copied.reduce_copied List.mem_cons_self apart reduced

/-- On the same slice both branches leave the same memory and publish the same counters, credit
the receive slot when all loads from it are done and announce the send slot when all stores to it
are: the branch for small slices refines the one for larger ones. -/
theorem branches_agree (launched : slice.Launched) (buffers : prim.Buffers slice)
    {smallLog largeLog : List (ℕ × Event α Sign)} {smallFinal largeFinal : ℕ → α}
    (small : Runs slice (prim.branch slice true) memory smallLog smallFinal)
    (large : Runs slice (prim.branch slice false) memory largeLog largeFinal) :
    smallFinal = largeFinal ∧ prim.Posts slice smallLog ∧ prim.Posts slice largeLog :=
  ⟨(branch_written launched buffers small).unique (branch_written launched buffers large),
    branch_posts launched buffers small, branch_posts launched buffers large⟩

/-- Nine elements on a block of four threads, two of them workers: a vector for each of the two,
and one element that is left. -/
def nineElements : Slice ℕ :=
  ⟨{ sumLaunch with nworkers := 2 }, 4, 16, 32, 16, true, 0, 0, 0, 48, 9⟩

theorem branches_agree_nineElements :
    ∃ smallLog largeLog smallFinal largeFinal,
      Runs nineElements (Primitive.recvReduceSend.branch nineElements true) (fun cell => cell)
          smallLog smallFinal ∧
        Runs nineElements (Primitive.recvReduceSend.branch nineElements false) (fun cell => cell)
          largeLog largeFinal ∧
        smallFinal = largeFinal ∧ Primitive.recvReduceSend.Posts nineElements smallLog ∧
        Primitive.recvReduceSend.Posts nineElements largeLog := by
  have small : ∃ log final,
      Runs nineElements (Primitive.recvReduceSend.branch nineElements true) (fun cell => cell) log
        final := by
    let copies : List ℕ := (List.replicate 8 [0, 1]).flatten ++ [0, 0]
    let reductions : List ℕ := (List.replicate 12 [1, 0]).flatten ++ [0, 2, 0, 0]
    refine ⟨_, _, .cons (rfl : StepSystem.exec step _ copies = some _) ?_
      (.cons (rfl : StepSystem.exec step _ reductions = some _) ?_
        (.cons (rfl : StepSystem.exec step _ [3, 3] = some _) ?_ (.nil _)))⟩ <;>
    · intro thread
      match thread with
      | 0 | 1 | 2 | 3 | thread + 4 => rfl
  have large : ∃ log final,
      Runs nineElements (Primitive.recvReduceSend.branch nineElements false) (fun cell => cell) log
        final := by
    let reductions : List ℕ := (List.replicate 12 [0, 1]).flatten ++ [0, 0, 0]
    refine ⟨_, _, .cons (rfl : StepSystem.exec step _ reductions = some _) ?_
      (.cons (rfl : StepSystem.exec step _ [3, 2, 3] = some _) ?_ (.nil _))⟩ <;>
    · intro thread
      match thread with
      | 0 | 1 | 2 | 3 | thread + 4 => rfl
  have buffers : Primitive.recvReduceSend.Buffers nineElements := by
    simp [Primitive.Buffers, Primitive.reads, Primitive.writes, Slice.recv, Slice.dst,
      nineElements, Apart]
  obtain ⟨smallLog, smallFinal, small⟩ := small
  obtain ⟨largeLog, largeFinal, large⟩ := large
  exact ⟨smallLog, largeLog, smallFinal, largeFinal, small, large,
    branches_agree ⟨by decide, by decide, by decide⟩ buffers small large⟩

/-- The branch that the primitive takes by the size of its slice leaves the value of the
primitive. -/
theorem code_written (launched : slice.Launched) (buffers : prim.Buffers slice)
    (runs : Runs slice (prim.code slice) memory log final) :
    Written (prim.writes slice) slice.work (prim.value slice memory) memory final ∧
      prim.Posts slice log :=
  ⟨branch_written launched buffers runs, branch_posts launched buffers runs⟩

end Branches

end SliceBranches
end NanoNccl
