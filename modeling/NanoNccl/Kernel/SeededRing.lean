import NanoNccl.Kernel.Credit
import NanoNccl.Kernel.PipeSteps

/-!
# The ring over pipes with seeded caches

The blocks of the code do not test the published head of the edge they send on. A block keeps
`send_head_cache`, which every launch seeds with the base step the last one left and which is
loaded from the published head only when it runs out; what the cache allows it writes, whatever the
head. A seed is covered where the published head leaves room for the slices the launch may send on
it, and a run whose launches all find their seeds covered is a run of the ring over pipes, whose
blocks fill a slot only when the head leaves room for it.
-/

namespace NanoNccl

/-- What a block knows of the edge it sends on. -/
structure SendCredit where
  /-- `send_base_steps[channel]`. -/
  sendBase : ℕ
  /-- `send_step`. -/
  sendStep : ℕ
  /-- `send_head_cache`. -/
  sendHeadCache : ℕ

namespace SendCredit

variable (credit : SendCredit)

/-- The cache does not cover the slot of the next slice. -/
def short : Bool := credit.sendHeadCache + kFifoSteps < credit.sendStep + kSliceSteps

/-- The block after an action of a slice operation. -/
def advance (prim : Prim) : PipeAction → SendCredit
  | .next =>
      if prim.sends then { credit with sendStep := credit.sendStep + kSliceSteps } else credit
  | .take | .move | .release | .publish | .ret => credit

/-- The kernel returns: thread 0 stores the base step. -/
def retire : SendCredit := { credit with sendBase := credit.sendStep }

/-- The cache is loaded from the published head. -/
def poll (head : ℕ) : SendCredit := { credit with sendHeadCache := head }

end SendCredit

/-- A ring over pipes with the slots the blocks write. -/
structure SeededRing (α : Type*) extends PipeRing α where
  /-- Slots of the edge a block sends on. -/
  slots : ∀ id, (edge id).Slots

namespace SeededRing

variable {α : Type*} (ring : SeededRing α)

/-- State of the ring. -/
structure State where
  /-- Blocks, edges and output buffers. -/
  pipes : ring.toPipeRing.State
  /-- Base step, step and cache of each block. -/
  credit : BlockId → SendCredit

/-- Steps of the ring. -/
inductive Label
  /-- A rank starts its next launch. -/
  | launch (rank : ℕ)
  /-- A block acts. -/
  | block (id : BlockId) (action : PipeAction)
  /-- A block loads the published head into its cache. -/
  | pollHead (id : BlockId)
  /-- An edge moves. -/
  | own (id : BlockId) (move : (ring.edge id).Own)

/-- Nothing has run. -/
def initial : ring.State where
  pipes := ring.toPipeRing.initial
  credit := fun id =>
    let base := (ring.slots id).base
    ⟨base, base, base⟩

variable {ring}

/-- Counter the block has published on the edge it sends on. -/
def State.tail (state : ring.State) (id : BlockId) : ℕ := (ring.slots id).tail (state.pipes.edge id)

/-- Head published on the edge a block sends on. -/
def State.head (state : ring.State) (id : BlockId) : ℕ := (ring.slots id).head (state.pipes.edge id)

variable (ring)

/-- A block enters a kernel: it loads the base step and seeds the cache with it. -/
def seed (launch : Launch α) (id : BlockId) (credit : SendCredit) : SendCredit :=
  if ring.net.emptyShare launch id.2 then credit
  else { credit with sendStep := credit.sendBase, sendHeadCache := credit.sendBase }

/-- The pass of a slice operation: it writes the send slot, once the cache covers it, and the
output. -/
def pass (state : ring.State) (id : BlockId) (launch : Launch α) (op : SliceOp) :
    Option ring.toPipeRing.State :=
  let value := ring.produced launch id.1 op (ring.received state.pipes id launch op)
  let buffer := (id.1, (state.pipes.block id).launch)
  let stored := { state.pipes with
    writes :=
      if op.prim.stores then
        Function.update state.pipes.writes buffer
          (logged (state.pipes.writes buffer) op.dst op.work value)
      else state.pipes.writes }
  if op.prim.sends then
    if (state.credit id).short then none
    else
      ((ring.slots id).write (state.pipes.edge id) (ring.codec.pack launch.dtype op.work value)).map
        fun next => stored.setEdge id next
  else some stored

/-- What an action does outside the block. -/
def effect (state : ring.State) (id : BlockId) (launch : Launch α) (op : SliceOp) :
    PipeAction → Option ring.toPipeRing.State
  | .move => ring.pass state id launch op
  | .take => ring.toPipeRing.effect state.pipes id launch op .take
  | .release => ring.toPipeRing.effect state.pipes id launch op .release
  | .publish => ring.toPipeRing.effect state.pipes id launch op .publish
  | .next => ring.toPipeRing.effect state.pipes id launch op .next
  | .ret => none

/-- The block waits for credit with a cache that has run out. -/
def polls (state : ring.State) (id : BlockId) : Bool :=
  (state.pipes.block id).live && (state.pipes.block id).ops.head?.any (·.prim.sends) &&
    !(state.pipes.block id).slice.moved && (state.credit id).short

/-- One step of the ring. -/
def step (state : ring.State) : ring.Label → Option ring.State
  | .launch rank =>
      match ring.net.launches[state.pipes.started rank]? with
      | none => none
      | some launch =>
          (ring.toPipeRing.step state.pipes (.launch rank)).map fun pipes =>
            { pipes
              credit := fun id =>
                if id.1 = rank ∧ id.2 < ring.net.kChannels then
                  ring.seed launch id (state.credit id)
                else state.credit id }
  | .block id action =>
      let block := state.pipes.block id
      if id.1 < ring.net.kRanks ∧ id.2 < ring.net.kChannels ∧ block.live then
        match ring.net.launches[block.launch]?, block.ops with
        | none, _ => none
        | some _, [] =>
            if action = .ret then
              some
                { pipes := state.pipes.setBlock id block.retire
                  credit := Function.update state.credit id (state.credit id).retire }
            else none
        | some launch, op :: rest =>
            if PipeRing.guard block.slice op.prim action then
              (ring.effect state id launch op action).map fun after =>
                { pipes := after.setBlock id (PipeRing.advance block rest action)
                  credit :=
                    Function.update state.credit id ((state.credit id).advance op.prim action) }
            else none
      else none
  | .pollHead id =>
      if id.1 < ring.net.kRanks ∧ id.2 < ring.net.kChannels ∧ ring.polls state id then
        some
          { state with
            credit := Function.update state.credit id ((state.credit id).poll (state.head id)) }
      else none
  | .own id move =>
      (ring.toPipeRing.step state.pipes (.own id move)).map fun pipes => { state with pipes }

/-- A launch starts on this rank only where the published heads cover the seeded caches: on each
channel the launch works on, the slices it may send before it reads the head again, at most one
FIFO of them, fit behind the head already published. -/
def SeedCovered (state : ring.State) : ring.Label → Prop
  | .launch rank =>
      ∀ launch, ring.net.launches[state.pipes.started rank]? = some launch →
        ∀ channel < ring.net.kChannels, ring.net.emptyShare launch channel = false →
          (state.credit (rank, channel)).sendBase +
              min (kSliceSteps * KernelRing.sendCount (ring.net.ops launch (rank, channel)))
                kFifoSteps ≤
            state.head (rank, channel) + kFifoSteps
  | .block _ _ | .pollHead _ | .own _ _ => True

instance (state : ring.State) (label : ring.Label) : Decidable (ring.SeedCovered state label) :=
  match label with
  | .launch rank =>
      inferInstanceAs (Decidable (∀ launch ∈ ring.net.launches[state.pipes.started rank]?, _))
  | .block _ _ | .pollHead _ | .own _ _ => inferInstanceAs (Decidable True)

/-- The slots have the size the kernels count with. -/
def Fits : Prop :=
  ∀ id, (ring.slots id).window = kFifoSteps ∧ (ring.slots id).width = kSliceSteps

variable {ring} {state state' : ring.State}

/-! ## What a step does -/

theorem step_block {id : BlockId} {action : PipeAction}
    (stepped : ring.step state (.block id action) = some state') :
    id.1 < ring.net.kRanks ∧ id.2 < ring.net.kChannels ∧ (state.pipes.block id).live = true ∧
      ∃ launch, ring.net.launches[(state.pipes.block id).launch]? = some launch ∧
        (((state.pipes.block id).ops = [] ∧ action = .ret ∧
            state' =
              { pipes := state.pipes.setBlock id (state.pipes.block id).retire
                credit := Function.update state.credit id (state.credit id).retire }) ∨
          ∃ op rest after, (state.pipes.block id).ops = op :: rest ∧
            PipeRing.guard (state.pipes.block id).slice op.prim action = true ∧
            ring.effect state id launch op action = some after ∧
            state' =
              { pipes := after.setBlock id
                  (PipeRing.advance (state.pipes.block id) rest action)
                credit := Function.update state.credit id
                  ((state.credit id).advance op.prim action) }) := by
  simp only [step] at stepped
  split at stepped
  · rename_i allowed
    refine ⟨allowed.1, allowed.2.1, allowed.2.2, ?_⟩
    cases found : ring.net.launches[(state.pipes.block id).launch]? with
    | none => simp [found] at stepped
    | some launch =>
        refine ⟨launch, rfl, ?_⟩
        cases queue : (state.pipes.block id).ops with
        | nil =>
            simp only [found, queue] at stepped
            split at stepped
            · rename_i returned
              exact .inl ⟨rfl, returned, (Option.some.inj stepped).symm⟩
            · cases stepped
        | cons op rest =>
            simp only [found, queue] at stepped
            split at stepped
            · rename_i enabled
              obtain ⟨after, happened, rfl⟩ := Option.map_eq_some_iff.mp stepped
              exact .inr ⟨op, rest, after, rfl, enabled, happened, rfl⟩
            · cases stepped
  · cases stepped

theorem step_launch {rank : ℕ} (stepped : ring.step state (.launch rank) = some state') :
    ∃ launch pipes, ring.net.launches[state.pipes.started rank]? = some launch ∧
      ring.toPipeRing.step state.pipes (.launch rank) = some pipes ∧
      state' =
        { pipes
          credit := fun id =>
            if id.1 = rank ∧ id.2 < ring.net.kChannels then
              ring.seed launch id (state.credit id)
            else state.credit id } := by
  simp only [step] at stepped
  cases found : ring.net.launches[state.pipes.started rank]? with
  | none => simp [found] at stepped
  | some launch =>
      simp only [found] at stepped
      obtain ⟨pipes, launched, rfl⟩ := Option.map_eq_some_iff.mp stepped
      exact ⟨launch, pipes, rfl, launched, rfl⟩

theorem step_pollHead {id : BlockId} (stepped : ring.step state (.pollHead id) = some state') :
    state' =
      { state with
        credit := Function.update state.credit id ((state.credit id).poll (state.head id)) } := by
  simp only [step] at stepped
  split at stepped
  · exact (Option.some.inj stepped).symm
  · cases stepped

/-- With room behind the published head, what an action does is what it does over pipes. -/
theorem effect_pipes {id : BlockId} {launch : Launch α} {op : SliceOp} {action : PipeAction}
    {after : ring.toPipeRing.State}
    (room : op.prim.sends = true → action = .move → (state.credit id).short = false →
      state.tail id + (ring.slots id).width ≤ state.head id + (ring.slots id).window)
    (happened : ring.effect state id launch op action = some after) :
    ring.toPipeRing.effect state.pipes id launch op action = some after := by
  cases action with
  | move =>
      unfold effect pass at happened
      unfold PipeRing.effect PipeRing.pass
      dsimp only at happened ⊢
      cases sends : op.prim.sends with
      | false => simpa [sends] using happened
      | true =>
          rw [sends, if_pos rfl] at happened
          split at happened
          · cases happened
          · rename_i covered
            rw [if_pos rfl, (ring.slots id).fill_eq _
              (room sends rfl (Bool.not_eq_true _ ▸ covered))]
            exact happened
  | take | release | publish | next => exact happened
  | ret => cases happened

/-! ## What moves the counters -/

theorem head_setEdge {pipes : ring.toPipeRing.State} {id : BlockId} {next : (ring.edge id).State}
    (grows : (ring.slots id).head (pipes.edge id) ≤ (ring.slots id).head next) (other : BlockId) :
    (ring.slots other).head (pipes.edge other) ≤
      (ring.slots other).head ((pipes.setEdge id next).edge other) := by
  by_cases same : other = id
  · subst same
    simpa [PipeRing.State.setEdge] using grows
  · simp [PipeRing.State.setEdge, same]

/-- No action takes a published head back. -/
theorem head_le_effect {pipes after : ring.toPipeRing.State} {id : BlockId} {launch : Launch α}
    {op : SliceOp} {action : PipeAction} (good : pipes.Good)
    (happened : ring.toPipeRing.effect pipes id launch op action = some after) (other : BlockId) :
    (ring.slots other).head (pipes.edge other) ≤ (ring.slots other).head (after.edge other) := by
  cases action with
  | take =>
      obtain ⟨next, taken, rfl⟩ := Option.map_eq_some_iff.mp happened
      exact head_setEdge ((ring.slots _).head_le .take (good _) taken) other
  | move =>
      unfold PipeRing.effect PipeRing.pass at happened
      dsimp only at happened
      split at happened
      · obtain ⟨next, filled, rfl⟩ := Option.map_eq_some_iff.mp happened
        exact head_setEdge ((ring.slots _).head_le (.fill _) (good _) filled) other
      · exact Option.some.inj happened ▸ le_rfl
  | release =>
      obtain ⟨next, released, rfl⟩ := Option.map_eq_some_iff.mp happened
      exact head_setEdge ((ring.slots _).head_le .release (good _) released) other
  | publish =>
      obtain ⟨next, published, rfl⟩ := Option.map_eq_some_iff.mp happened
      exact head_setEdge ((ring.slots _).head_le .publish (good _) published) other
  | next => exact Option.some.inj happened ▸ le_rfl
  | ret => cases happened

/-- Only a block that publishes a slice changes what was published, on the edge it sends on. -/
theorem published_effect {pipes after : ring.toPipeRing.State} {id : BlockId} {launch : Launch α}
    {op : SliceOp} {action : PipeAction} (good : pipes.Good)
    (happened : ring.toPipeRing.effect pipes id launch op action = some after) (other : BlockId) :
    (after.line other).published.length =
      (pipes.line other).published.length + if action = .publish ∧ other = id then 1 else 0 := by
  have lines := (PipeRing.effect_spec good happened).lines
  by_cases target : PipeRing.produces action = true ∧ other = id
  · obtain ⟨produces, rfl⟩ := target
    cases action with
    | move =>
        simp only [PipeRing.lineEffect] at lines
        split at lines
        · obtain ⟨line, staged, same⟩ := Option.map_eq_some_iff.mp lines
          obtain ⟨-, rfl⟩ := Line.stage_eq_some.mp staged
          simp [← same]
        · simp [← Option.some.inj lines]
    | publish =>
        obtain ⟨line, published, same⟩ := Option.map_eq_some_iff.mp lines
        obtain ⟨payload, -, rfl⟩ := Line.publish_eq_some.mp published
        simp [← same]
    | take | release | next | ret => cases produces
  · have kept : (after.line other).producer = (pipes.line other).producer :=
      PipeRing.lineEffect_producer lines fun produces same => target ⟨produces, same⟩
    have quiet : ¬ (action = .publish ∧ other = id) := by
      rintro ⟨rfl, same⟩
      exact target ⟨rfl, same⟩
    rw [if_neg quiet]
    exact congrArg (fun producer => producer.1.length) kept

/-- The published tail counts the slices published. -/
theorem tail_eq_of_line {before after : ring.toPipeRing.State} (good : before.Good)
    (kept : after.Good) {id : BlockId} {more : ℕ}
    (published : (after.line id).published.length = (before.line id).published.length + more) :
    (ring.slots id).tail (after.edge id) =
      (ring.slots id).tail (before.edge id) + (ring.slots id).width * more := by
  unfold PipeRing.State.line at published
  rw [(ring.slots id).tail_eq (good id), (ring.slots id).tail_eq (kept id), published]
  ring

/-! ## One block and the counters of its edge -/

/-- A block against the tail and the head of the edge it sends on. -/
structure Counted (block : PipeBlock) (credit : SendCredit) (tail head : ℕ) : Prop where
  /-- Between launches the base step is the published tail. -/
  resting : block.live = false → tail = credit.sendBase
  /-- Inside a launch the step is, or the slice at it is published already. -/
  tail : block.live = true →
    tail = credit.sendStep + if block.slice.published then kSliceSteps else 0
  published : block.slice.published = true →
    block.slice.moved = true ∧ ∃ op rest, block.ops = op :: rest ∧ op.prim.sends = true
  /-- The cached head is published, or the rest of the launch fits behind the published head. -/
  covered : block.live = true →
    credit.sendHeadCache ≤ head ∨
      credit.sendStep + kSliceSteps * KernelRing.sendCount block.ops ≤ head + kFifoSteps

namespace Counted

variable {block : PipeBlock} {credit : SendCredit} {tail head later : ℕ} {op : SliceOp}
  {rest : List SliceOp} {action : PipeAction}

theorem mono (counted : Counted block credit tail head) (grows : head ≤ later) :
    Counted block credit tail later :=
  { counted with
    covered := fun live => by
      have before := counted.covered live
      omega }

theorem unpublished_of_nil (counted : Counted block credit tail head) (queue : block.ops = []) :
    block.slice.published = false := by
  rw [Bool.eq_false_iff]
  intro published
  obtain ⟨-, op, rest, more, -⟩ := counted.published published
  simp [queue] at more

theorem retire (counted : Counted block credit tail head) (live : block.live = true)
    (queue : block.ops = []) : Counted block.retire credit.retire tail head where
  resting := by
    have before := counted.tail live
    rw [counted.unpublished_of_nil queue] at before
    exact fun _ => before
  tail := nofun
  published := counted.published
  covered := nofun

theorem poll (counted : Counted block credit tail head) :
    Counted block (credit.poll head) tail head :=
  { resting := counted.resting
    tail := counted.tail
    published := counted.published
    covered := fun _ => .inl le_rfl }

/-- The seed of a launch is either below the published head or covers the whole launch. -/
theorem enter (counted : Counted block credit tail head) (resting : block.live = false)
    {launch : Launch α} {id : BlockId} (index : ℕ)
    (room : ring.net.emptyShare launch id.2 = false →
      credit.sendBase + min (kSliceSteps * KernelRing.sendCount (ring.net.ops launch id))
        kFifoSteps ≤ head + kFifoSteps) :
    Counted (ring.enter launch index id block) (ring.seed launch id credit) tail head := by
  unfold PipeRing.enter seed
  cases share : ring.net.emptyShare launch id.2 with
  | true =>
      simp only [if_true]
      exact {
        resting := counted.resting
        tail := fun live => absurd (resting.symm.trans live) Bool.false_ne_true
        published := counted.published
        covered := fun live => absurd (resting.symm.trans live) Bool.false_ne_true }
  | false =>
      simp only [Bool.false_eq_true, if_false]
      have seeded := room share
      refine { resting := nofun, tail := fun _ => counted.resting resting, published := nofun,
               covered := fun _ => ?_ }
      show credit.sendBase ≤ head ∨ credit.sendBase +
        kSliceSteps * KernelRing.sendCount (ring.net.ops launch id) ≤ head + kFifoSteps
      omega

/-- A slice the cache covers has room behind the published head. -/
theorem room (counted : Counted block credit tail head) (live : block.live = true)
    (queue : block.ops = op :: rest) (sends : op.prim.sends = true)
    (unmoved : block.slice.moved = false) (covered : credit.short = false) :
    tail + kSliceSteps ≤ head + kFifoSteps := by
  have unpublished : block.slice.published = false := by
    rw [Bool.eq_false_iff]
    intro published
    exact absurd (counted.published published).1 (by simp [unmoved])
  have at_step := counted.tail live
  have before := counted.covered live
  rw [unpublished] at at_step
  rw [queue, KernelRing.sendCount_cons, sends, if_pos rfl] at before
  simp only [SendCredit.short, decide_eq_false_iff_not, not_lt] at covered
  simp only [Bool.false_eq_true, if_false, kSliceSteps, kFifoSteps] at *
  omega

theorem advance (counted : Counted block credit tail head) (live : block.live = true)
    (queue : block.ops = op :: rest)
    (enabled : PipeRing.guard block.slice op.prim action = true) :
    Counted (PipeRing.advance block rest action) (credit.advance op.prim action)
      (tail + if action = .publish then kSliceSteps else 0) head := by
  have at_step := counted.tail live
  have covered := counted.covered live
  have awake {goal : Prop} (idle : block.live = false) : goal :=
    absurd (live.symm.trans idle) Bool.noConfusion
  cases action with
  | take | release =>
      exact {
        resting := awake
        tail := fun _ => at_step
        published := counted.published
        covered := fun _ => covered }
  | move =>
      exact {
        resting := awake
        tail := fun _ => at_step
        published := fun published => ⟨rfl, (counted.published published).2⟩
        covered := fun _ => covered }
  | publish =>
      simp only [PipeRing.guard, Bool.and_eq_true, Bool.not_eq_true'] at enabled
      obtain ⟨⟨sends, moved⟩, unpublished⟩ := enabled
      rw [unpublished] at at_step
      exact {
        resting := awake
        tail := fun _ => congrArg (· + kSliceSteps) at_step
        published := fun _ => ⟨moved, op, rest, queue, sends⟩
        covered := fun _ => covered }
  | next =>
      simp only [PipeRing.guard, Bool.and_eq_true, Bool.or_eq_true, Bool.not_eq_true'] at enabled
      rw [queue, KernelRing.sendCount_cons] at covered
      cases sends : op.prim.sends with
      | true =>
          -- The tail of the slice is published, and the step moves on to it.
          have published : block.slice.published = true := by simpa [sends] using enabled.2
          rw [published] at at_step
          rw [sends, if_pos rfl] at covered
          refine { resting := awake, tail := fun _ => ?_, published := nofun,
                   covered := fun _ => ?_ }
          · simpa [PipeRing.advance, SendCredit.advance, sends] using at_step
          · simp only [PipeRing.advance, SendCredit.advance, sends, if_true]
            rw [Nat.mul_add, Nat.mul_one] at covered
            omega
      | false =>
          have unpublished : block.slice.published = false := by
            rw [Bool.eq_false_iff]
            intro published
            obtain ⟨-, op', rest', queue', sends'⟩ := counted.published published
            obtain ⟨rfl, -⟩ : op = op' ∧ rest = rest' := by simpa [queue] using queue'
            simp [sends] at sends'
          rw [unpublished] at at_step
          rw [sends] at covered
          refine { resting := awake, tail := fun _ => ?_, published := nofun,
                   covered := fun _ => ?_ }
          · simpa [PipeRing.advance, SendCredit.advance, sends] using at_step
          · simpa [PipeRing.advance, SendCredit.advance, sends] using covered
  | ret => cases enabled

end Counted

/-! ## Every block -/

/-- Every edge is in a good state, and every block agrees with the counters of its edge. -/
structure Inv (state : ring.State) : Prop where
  good : state.pipes.Good
  counted : ∀ id,
    Counted (state.pipes.block id) (state.credit id) (state.tail id) (state.head id)

theorem inv_initial : Inv ring.initial where
  good := PipeRing.good_initial
  counted := by
    intro id
    have fresh := (ring.slots id).tail_eq (ring.edge id).good_start
    rw [(ring.edge id).line_start] at fresh
    exact { resting := fun _ => fresh, tail := nofun, published := nofun, covered := nofun }

/-- With its seeds covered, an action of a block is one of the ring over pipes. -/
theorem Inv.effect {id : BlockId} {launch : Launch α} {op : SliceOp} {rest : List SliceOp}
    {action : PipeAction} {after : ring.toPipeRing.State} (inv : Inv state) (fits : ring.Fits)
    (live : (state.pipes.block id).live = true) (queue : (state.pipes.block id).ops = op :: rest)
    (enabled : PipeRing.guard (state.pipes.block id).slice op.prim action = true)
    (happened : ring.effect state id launch op action = some after) :
    ring.toPipeRing.effect state.pipes id launch op action = some after := by
  refine effect_pipes (fun sends moving covered => ?_) happened
  subst moving
  simp only [PipeRing.guard, Bool.and_eq_true, Bool.not_eq_true'] at enabled
  rw [(fits id).1, (fits id).2]
  exact (inv.counted id).room live queue sends enabled.2 covered

theorem Inv.block {id : BlockId} {action : PipeAction} (inv : Inv state) (fits : ring.Fits)
    (stepped : ring.step state (.block id action) = some state') : Inv state' := by
  obtain ⟨-, -, live, launch, -, finished | continued⟩ := step_block stepped
  · obtain ⟨queue, -, rfl⟩ := finished
    refine ⟨inv.good, fun other => ?_⟩
    have before := inv.counted other
    by_cases same : other = id
    · subst same
      simpa [PipeRing.State.setBlock, State.tail, State.head] using before.retire live queue
    · simpa [PipeRing.State.setBlock, State.tail, State.head, same] using before
  · obtain ⟨op, rest, after, queue, enabled, happened, rfl⟩ := continued
    have plain := inv.effect fits live queue enabled happened
    have effect := PipeRing.effect_spec inv.good plain
    refine ⟨effect.good, fun other => ?_⟩
    have before := inv.counted other
    have heads := head_le_effect inv.good plain other
    have tails : (ring.slots other).tail (after.edge other) =
        state.tail other + kSliceSteps * if action = .publish ∧ other = id then 1 else 0 := by
      rw [← (fits other).2]
      exact tail_eq_of_line inv.good effect.good (published_effect inv.good plain other)
    by_cases same : other = id
    · subst same
      have moved := (before.advance live queue enabled).mono heads
      simp only [and_true] at tails
      have sum : state.tail other + kSliceSteps * (if action = .publish then 1 else 0) =
          state.tail other + if action = .publish then kSliceSteps else 0 := by
        split <;> rfl
      rw [← sum, ← tails] at moved
      simpa [PipeRing.State.setBlock, State.tail, State.head] using moved
    · have kept := before.mono heads
      simp only [same, and_false, if_false, Nat.mul_zero, Nat.add_zero] at tails
      rw [← tails] at kept
      have block := congrFun effect.block other
      simpa [PipeRing.State.setBlock, State.tail, State.head, same, block] using kept

theorem Inv.launch {rank : ℕ} (inv : Inv state) (seeded : ring.SeedCovered state (.launch rank))
    (stepped : ring.step state (.launch rank) = some state') : Inv state' := by
  obtain ⟨launch, pipes, found, launched, rfl⟩ := step_launch stepped
  obtain ⟨launch', found', rank_lt, idle, rfl⟩ := PipeRing.step_launch launched
  obtain rfl : launch = launch' := Option.some.inj (found.symm.trans found')
  refine ⟨inv.good, fun id => ?_⟩
  have before := inv.counted id
  by_cases entering : id.1 = rank ∧ id.2 < ring.net.kChannels
  · obtain ⟨entered, channel⟩ := id
    obtain ⟨rfl, channel_lt⟩ := entering
    have entry : Counted
        (ring.enter launch (state.pipes.started entered) (entered, channel)
          (state.pipes.block (entered, channel)))
        (ring.seed launch (entered, channel) (state.credit (entered, channel)))
        (state.tail (entered, channel)) (state.head (entered, channel)) :=
      before.enter (idle channel channel_lt) _ (seeded launch found channel channel_lt)
    simpa [channel_lt, State.tail, State.head] using entry
  · simpa [entering, State.tail, State.head] using before

theorem Inv.pollHead {id : BlockId} (inv : Inv state)
    (stepped : ring.step state (.pollHead id) = some state') : Inv state' := by
  obtain rfl := step_pollHead stepped
  refine ⟨inv.good, fun other => ?_⟩
  have before := inv.counted other
  by_cases same : other = id
  · subst same
    simpa [State.tail, State.head] using before.poll
  · simpa [State.tail, State.head, same] using before

theorem Inv.own {id : BlockId} {move : (ring.edge id).Own} (inv : Inv state)
    (stepped : ring.step state (.own id move) = some state') : Inv state' := by
  obtain ⟨pipes, moved, rfl⟩ := Option.map_eq_some_iff.mp stepped
  obtain ⟨good, -, block, line, -⟩ := PipeRing.step_own inv.good moved
  refine ⟨good, fun other => ?_⟩
  have same : (pipes.line other).published.length =
      (state.pipes.line other).published.length + 0 := by
    rw [line, Nat.add_zero]
  have tails : State.tail ⟨pipes, state.credit⟩ other = state.tail other + _ * 0 :=
    tail_eq_of_line inv.good good same
  have heads : state.head other ≤ State.head ⟨pipes, state.credit⟩ other := by
    obtain ⟨next, taken, rfl⟩ := Option.map_eq_some_iff.mp moved
    exact head_setEdge ((ring.slots id).head_le (.own move) (inv.good id) taken) other
  have kept := (inv.counted other).mono heads
  rw [Nat.mul_zero, Nat.add_zero] at tails
  rw [← tails] at kept
  have blocks := congrFun block other
  simpa [blocks] using kept

theorem inv_step {label : ring.Label} (fits : ring.Fits) (inv : Inv state)
    (seeded : ring.SeedCovered state label) (stepped : ring.step state label = some state') :
    Inv state' := by
  cases label with
  | launch rank => exact inv.launch seeded stepped
  | block id action => exact inv.block fits stepped
  | pollHead id => exact inv.pollHead stepped
  | own id move => exact inv.own stepped

/-! ## The ring over pipes -/

/-- A step is one of the ring over pipes, or a load of the published head, which that ring does not
see. -/
theorem step_pipes {label : ring.Label} (fits : ring.Fits) (inv : Inv state)
    (stepped : ring.step state label = some state') :
    state'.pipes = state.pipes ∨
      ∃ plain, ring.toPipeRing.step state.pipes plain = some state'.pipes := by
  cases label with
  | launch rank =>
      obtain ⟨launch, pipes, -, launched, rfl⟩ := step_launch stepped
      exact .inr ⟨.launch rank, launched⟩
  | block id action =>
      obtain ⟨id_rank, id_channel, live, launch, found, finished | continued⟩ := step_block stepped
      · obtain ⟨queue, rfl, rfl⟩ := finished
        refine .inr ⟨.block id .ret, ?_⟩
        simp [PipeRing.step, id_rank, id_channel, live, found, queue]
      · obtain ⟨op, rest, after, queue, enabled, happened, rfl⟩ := continued
        refine .inr ⟨.block id action, ?_⟩
        have plain := inv.effect fits live queue enabled happened
        simp [PipeRing.step, id_rank, id_channel, live, found, queue, enabled, plain]
  | pollHead id =>
      obtain rfl := step_pollHead stepped
      exact .inl rfl
  | own id move =>
      obtain ⟨pipes, moved, rfl⟩ := Option.map_eq_some_iff.mp stepped
      exact .inr ⟨.own id move, moved⟩

/-- A run whose launches all find their seeds covered is a run of the ring over pipes. -/
theorem pipes_reachable {labels : List ring.Label} (fits : ring.Fits)
    (seeded : StepSystem.Along ring.step ring.SeedCovered ring.initial labels)
    (execution : StepSystem.exec ring.step ring.initial labels = some state) :
    ring.toPipeRing.Reachable state.pipes := by
  have invariant : Inv state ∧ ring.toPipeRing.Reachable state.pipes := by
    refine StepSystem.exec_invariant_along
      (fun state => Inv state ∧ ring.toPipeRing.Reachable state.pipes) ?_ ?_ seeded execution
    · intro before label after inv covered stepped
      refine ⟨inv_step fits inv.1 covered stepped, ?_⟩
      obtain same | ⟨plain, taken⟩ := step_pipes fits inv.1 stepped
      · exact same ▸ inv.2
      · exact inv.2.extend taken
    · exact ⟨inv_initial, [], rfl⟩
  exact invariant.2

end SeededRing
end NanoNccl
