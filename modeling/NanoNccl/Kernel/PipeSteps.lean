import NanoNccl.Kernel.PipePlan

/-!
# What a step of the ring over pipes does

Seen from the blocks an edge is its line, so a step is described by what it does to the blocks, to
the lines and to the output buffers. A block changes the producer's side of the edge it sends on
and the consumer's side of the edge it receives from.
-/

namespace NanoNccl
namespace PipeRing

variable {α : Type*} {ring : PipeRing α} {state after state' : ring.State}

/-- Every edge is in a good state. -/
def State.Good (state : ring.State) : Prop := ∀ id, (ring.edge id).Good (state.edge id)

theorem good_initial : (ring.initial).Good := fun id => (ring.edge id).good_start

theorem line_initial (id : BlockId) : ring.initial.line id = Line.empty :=
  (ring.edge id).line_start

/-! ## One edge moves -/

theorem State.line_setEdge (state : ring.State) (id : BlockId) (next : (ring.edge id).State) :
    (state.setEdge id next).line =
      Function.update state.line id ((ring.edge id).line next) := by
  funext other
  by_cases same : other = id
  · subst same
    simp [State.line, State.setEdge]
  · simp [State.line, State.setEdge, same]

theorem State.Good.setEdge (good : state.Good) {id : BlockId} {next : (ring.edge id).State}
    (kept : (ring.edge id).Good next) : (state.setEdge id next).Good := by
  intro other
  by_cases same : other = id
  · subst same
    simpa [State.setEdge] using kept
  · simpa [State.setEdge, same] using good other

theorem step_own {id : BlockId} {move : (ring.edge id).Own} (good : state.Good)
    (stepped : ring.step state (.own id move) = some state') :
    state'.Good ∧ state'.started = state.started ∧ state'.block = state.block ∧
      state'.line = state.line ∧ state'.writes = state.writes := by
  obtain ⟨next, moved, rfl⟩ := Option.map_eq_some_iff.mp stepped
  obtain ⟨kept, same⟩ := (ring.edge id).own_spec (good id) moved
  refine ⟨good.setEdge kept, rfl, rfl, ?_, rfl⟩
  rw [State.line_setEdge, same]
  exact Function.update_eq_self id state.line

/-! ## A rank starts a launch -/

theorem step_launch {rank : ℕ} (stepped : ring.step state (.launch rank) = some state') :
    ∃ launch, ring.net.launches[state.started rank]? = some launch ∧ rank < ring.net.kRanks ∧
      state.idle rank ∧
      state' =
        { state with
          started := Function.update state.started rank (state.started rank + 1)
          block := fun id =>
            if id.1 = rank ∧ id.2 < ring.net.kChannels then
              ring.enter launch (state.started rank) id (state.block id)
            else state.block id } := by
  unfold step at stepped
  cases found : ring.net.launches[state.started rank]? with
  | none => simp [found] at stepped
  | some launch =>
      simp only [found] at stepped
      split at stepped
      · rename_i allowed
        exact ⟨launch, rfl, allowed.1, allowed.2, (Option.some.inj stepped).symm⟩
      · cases stepped

/-! ## A block acts -/

theorem step_block {id : BlockId} {action : PipeAction}
    (stepped : ring.step state (.block id action) = some state') :
    id.1 < ring.net.kRanks ∧ id.2 < ring.net.kChannels ∧ (state.block id).live = true ∧
      ∃ launch, ring.net.launches[(state.block id).launch]? = some launch ∧
        (((state.block id).ops = [] ∧ action = .ret ∧
            state' = state.setBlock id (state.block id).retire) ∨
          ∃ op rest after, (state.block id).ops = op :: rest ∧
            guard (state.block id).slice op.prim action = true ∧
            ring.effect state id launch op action = some after ∧
            state' = after.setBlock id (advance (state.block id) rest action)) := by
  simp only [step] at stepped
  split at stepped
  · rename_i allowed
    refine ⟨allowed.1, allowed.2.1, allowed.2.2, ?_⟩
    cases found : ring.net.launches[(state.block id).launch]? with
    | none => simp [found] at stepped
    | some launch =>
        refine ⟨launch, rfl, ?_⟩
        cases queue : (state.block id).ops with
        | nil =>
            simp only [found, queue] at stepped
            split at stepped
            · rename_i returned
              exact .inl ⟨rfl, returned, (Option.some.inj stepped).symm⟩
            · cases stepped
        | cons op rest =>
            simp only [found, queue] at stepped
            split at stepped
            · rename_i enabled
              obtain ⟨after, happened, rfl⟩ := Option.map_eq_some_iff.mp stepped
              exact .inr ⟨op, rest, after, rfl, enabled, happened, rfl⟩
            · cases stepped
  · cases stepped

/-- What an action does to the lines, when the pass of the slice produces `payload`. -/
def lineEffect (lines : BlockId → Line UInt8) (source target : BlockId) (prim : Prim)
    (payload : List UInt8) : PipeAction → Option (BlockId → Line UInt8)
  | .take => (lines source).take.map (Function.update lines source)
  | .move =>
      if prim.sends then ((lines target).stage payload).map (Function.update lines target)
      else some lines
  | .release => (lines source).release.map (Function.update lines source)
  | .publish => (lines target).publish.map (Function.update lines target)
  | .next => some lines
  | .ret => none

/-- Values the pass of a slice operation produces in a state. -/
def passValue (state : ring.State) (id : BlockId) (launch : Launch α) (op : SliceOp) : ℕ → α :=
  ring.produced launch id.1 op (ring.received state id launch op)

/-- An action of a block is an action on the lines. -/
structure Effect (state : ring.State) (id : BlockId) (launch : Launch α) (op : SliceOp)
    (action : PipeAction) (after : ring.State) : Prop where
  good : after.Good
  started : after.started = state.started
  block : after.block = state.block
  lines : lineEffect state.line (ring.net.pred id) id op.prim
    (ring.codec.pack launch.dtype op.work (passValue state id launch op)) action = some after.line
  writes : after.writes =
    if action = .move ∧ op.prim.stores = true then
      Function.update state.writes (id.1, (state.block id).launch)
        (logged (state.writes (id.1, (state.block id).launch)) op.dst op.work
          (passValue state id launch op))
    else state.writes

theorem effect_spec {id : BlockId} {launch : Launch α} {op : SliceOp} {action : PipeAction}
    (good : state.Good) (happened : ring.effect state id launch op action = some after) :
    Effect state id launch op action after := by
  cases action with
  | take =>
      obtain ⟨next, taken, rfl⟩ := Option.map_eq_some_iff.mp happened
      obtain ⟨kept, line⟩ := (ring.edge _).take_spec (good _) taken
      refine ⟨good.setEdge kept, rfl, rfl, ?_, by simp [State.setEdge]⟩
      rw [State.line_setEdge, lineEffect, show (state.line (ring.net.pred id)).take = _ from line]
      rfl
  | move =>
      unfold effect pass at happened
      dsimp only at happened
      cases sends : op.prim.sends with
      | true =>
          rw [sends, if_pos rfl] at happened
          obtain ⟨next, filled, rfl⟩ := Option.map_eq_some_iff.mp happened
          obtain ⟨kept, line⟩ := (ring.edge _).fill_spec (good _) filled
          refine ⟨State.Good.setEdge (fun other => good other) kept, rfl, rfl, ?_, ?_⟩
          · rw [State.line_setEdge, lineEffect, sends, if_pos rfl,
              show (state.line id).stage (ring.codec.pack launch.dtype op.work
                (passValue state id launch op)) = _ from line]
            rfl
          · simp [State.setEdge, passValue]
      | false =>
          rw [sends, if_neg Bool.false_ne_true] at happened
          obtain rfl := Option.some.inj happened
          refine ⟨fun other => good other, rfl, rfl, ?_, by simp [passValue]⟩
          rw [lineEffect, sends, if_neg Bool.false_ne_true]
          rfl
  | release =>
      obtain ⟨next, released, rfl⟩ := Option.map_eq_some_iff.mp happened
      obtain ⟨kept, line⟩ := (ring.edge _).release_spec (good _) released
      refine ⟨good.setEdge kept, rfl, rfl, ?_, by simp [State.setEdge]⟩
      rw [State.line_setEdge, lineEffect,
        show (state.line (ring.net.pred id)).release = _ from line]
      rfl
  | publish =>
      obtain ⟨next, published, rfl⟩ := Option.map_eq_some_iff.mp happened
      obtain ⟨kept, line⟩ := (ring.edge _).publish_spec (good _) published
      refine ⟨good.setEdge kept, rfl, rfl, ?_, by simp [State.setEdge]⟩
      rw [State.line_setEdge, lineEffect, show (state.line id).publish = _ from line]
      rfl
  | next =>
      obtain rfl := Option.some.inj happened
      exact ⟨good, rfl, rfl, rfl, by simp⟩
  | ret => cases happened

/-! ## What an action leaves alone -/

section Frame

variable {lines lines' : BlockId → Line UInt8} {source target other : BlockId} {prim : Prim}
  {payload : List UInt8} {action : PipeAction}

/-- The action works on the edge the block sends on. -/
def produces : PipeAction → Bool
  | .move | .publish => true
  | .take | .release | .next | .ret => false

/-- The action works on the edge the block receives from. -/
def consumes : PipeAction → Bool
  | .take | .release => true
  | .move | .publish | .next | .ret => false

/-- Only the sender of an edge changes the producer's side of its line. -/
theorem lineEffect_producer
    (happened : lineEffect lines source target prim payload action = some lines')
    (apart : produces action = true → other ≠ target) :
    (lines' other).producer = (lines other).producer := by
  cases action with
  | take =>
      obtain ⟨line, taken, rfl⟩ := Option.map_eq_some_iff.mp happened
      by_cases same : other = source
      · subst same
        simpa using Line.producer_take taken
      · simp [same]
  | move =>
      simp only [lineEffect] at happened
      split at happened
      · obtain ⟨line, -, rfl⟩ := Option.map_eq_some_iff.mp happened
        simp [apart rfl]
      · exact Option.some.inj happened ▸ rfl
  | release =>
      obtain ⟨line, released, rfl⟩ := Option.map_eq_some_iff.mp happened
      by_cases same : other = source
      · subst same
        simpa using Line.producer_release released
      · simp [same]
  | publish =>
      obtain ⟨line, -, rfl⟩ := Option.map_eq_some_iff.mp happened
      simp [apart rfl]
  | next => exact Option.some.inj happened ▸ rfl
  | ret => cases happened

/-- Only the receiver of an edge changes the consumer's side of its line. -/
theorem lineEffect_consumer
    (happened : lineEffect lines source target prim payload action = some lines')
    (apart : consumes action = true → other ≠ source) :
    (lines' other).consumer = (lines other).consumer := by
  cases action with
  | take | release =>
      obtain ⟨line, -, rfl⟩ := Option.map_eq_some_iff.mp happened
      simp [apart rfl]
  | move =>
      simp only [lineEffect] at happened
      split at happened
      · obtain ⟨line, staged, rfl⟩ := Option.map_eq_some_iff.mp happened
        by_cases same : other = target
        · subst same
          simpa using Line.consumer_stage staged
        · simp [same]
      · exact Option.some.inj happened ▸ rfl
  | publish =>
      obtain ⟨line, published, rfl⟩ := Option.map_eq_some_iff.mp happened
      by_cases same : other = target
      · subst same
        simpa using Line.consumer_publish published
      · simp [same]
  | next => exact Option.some.inj happened ▸ rfl
  | ret => cases happened

theorem ok_update {line : Line UInt8} (ok : ∀ id, (lines id).Ok) (next : line.Ok) (id : BlockId) :
    (Function.update lines target line id).Ok := by
  by_cases same : id = target
  · subst same
    simpa using next
  · simpa [same] using ok id

theorem lineEffect_ok
    (happened : lineEffect lines source target prim payload action = some lines')
    (ok : ∀ id, (lines id).Ok) : ∀ id, (lines' id).Ok := by
  -- Every action is a move of one line.
  have moved {id : BlockId} {line : Line UInt8} (move : Pipe.Move UInt8 Empty)
      (taken : Pipe.lineStep (lines id) move = some line) : line.Ok :=
    Pipe.lineStep_ok (ok id) taken
  cases action with
  | take =>
      obtain ⟨line, taken, rfl⟩ := Option.map_eq_some_iff.mp happened
      exact ok_update ok (moved .take taken)
  | move =>
      simp only [lineEffect] at happened
      split at happened
      · obtain ⟨line, staged, rfl⟩ := Option.map_eq_some_iff.mp happened
        exact ok_update ok (moved (.fill payload) staged)
      · exact Option.some.inj happened ▸ ok
  | release =>
      obtain ⟨line, released, rfl⟩ := Option.map_eq_some_iff.mp happened
      exact ok_update ok (moved .release released)
  | publish =>
      obtain ⟨line, published, rfl⟩ := Option.map_eq_some_iff.mp happened
      exact ok_update ok (moved .publish published)
  | next => exact Option.some.inj happened ▸ ok
  | ret => cases happened

end Frame

end PipeRing
end NanoNccl
