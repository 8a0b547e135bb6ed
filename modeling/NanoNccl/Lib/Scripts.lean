import Mathlib.Data.List.Forall2
import NanoNccl.Lib.Execution

/-!
# Scripts over byte streams

Parties that run fixed scripts put bytes on ports and get bytes from them; what is put on a port is
got in order at its peer. Every instruction belongs to a phase. When the phases of a script never go
down, when each byte is put in a phase below the one it is got in, and when the streams have room
for what is put on them, no order of the steps leads to a deadlock.
-/

namespace Scripts

variable {ρ ι β κ : Type*}

/-- One instruction. A call that moves several bytes is as many instructions. -/
inductive Op (ι β κ : Type*)
  /-- Put a byte on a port. -/
  | put (port : ι) (byte : β)
  /-- Get a byte from a port. -/
  | get (port : ι)
  /-- Work of the party on its own. -/
  | work (task : κ)
  deriving DecidableEq, Repr

/-- The port an instruction uses. -/
def Op.port? : Op ι β κ → Option ι
  | .put port _ | .get port => some port
  | .work _ => none

/-- Instructions with their phases. -/
abbrev Script (ι β κ : Type*) := List (ℕ × Op ι β κ)

/-- Lists of instructions become one script, one phase each. -/
def ofPhases (first : ℕ) : List (List (Op ι β κ)) → Script ι β κ
  | [] => []
  | ops :: phases => ops.map (first, ·) ++ ofPhases (first + 1) phases

section Ports

variable [DecidableEq ι]

/-- Bytes a script puts on a port, with their phases. -/
def putsAt (port : ι) (script : Script ι β κ) : List (ℕ × β) :=
  script.filterMap fun entry =>
    match entry.2 with
    | .put other byte => if other = port then some (entry.1, byte) else none
    | .get _ | .work _ => none

/-- Phases in which a script gets bytes from a port. -/
def getsAt (port : ι) (script : Script ι β κ) : List ℕ :=
  script.filterMap fun entry =>
    match entry.2 with
    | .get other => if other = port then some entry.1 else none
    | .put _ _ | .work _ => none

variable (port : ι)

@[simp] theorem putsAt_nil : putsAt port ([] : Script ι β κ) = [] := rfl

@[simp] theorem getsAt_nil : getsAt port ([] : Script ι β κ) = [] := rfl

@[simp] theorem putsAt_append (first second : Script ι β κ) :
    putsAt port (first ++ second) = putsAt port first ++ putsAt port second :=
  List.filterMap_append

@[simp] theorem getsAt_append (first second : Script ι β κ) :
    getsAt port (first ++ second) = getsAt port first ++ getsAt port second :=
  List.filterMap_append

@[simp] theorem putsAt_put (phase : ℕ) (other : ι) (byte : β) :
    putsAt port ([(phase, .put other byte)] : Script ι β κ) =
      if other = port then [(phase, byte)] else [] := by
  by_cases same : other = port <;> simp [putsAt, same]

@[simp] theorem putsAt_get (phase : ℕ) (other : ι) :
    putsAt port ([(phase, .get other)] : Script ι β κ) = [] := rfl

@[simp] theorem putsAt_work (phase : ℕ) (task : κ) :
    putsAt port ([(phase, .work task)] : Script ι β κ) = [] := rfl

@[simp] theorem getsAt_put (phase : ℕ) (other : ι) (byte : β) :
    getsAt port ([(phase, .put other byte)] : Script ι β κ) = [] := rfl

@[simp] theorem getsAt_get (phase : ℕ) (other : ι) :
    getsAt port ([(phase, .get other)] : Script ι β κ) =
      if other = port then [phase] else [] := by
  by_cases same : other = port <;> simp [getsAt, same]

@[simp] theorem getsAt_work (phase : ℕ) (task : κ) :
    getsAt port ([(phase, .work task)] : Script ι β κ) = [] := rfl

variable {port}

theorem mem_putsAt {script : Script ι β κ} {put : ℕ × β} :
    put ∈ putsAt port script ↔ (put.1, Op.put port put.2) ∈ script := by
  simp only [putsAt, List.mem_filterMap]
  constructor
  · rintro ⟨⟨phase, op⟩, member, is_put⟩
    cases op with
    | put other byte =>
        obtain ⟨rfl, same⟩ := Option.ite_none_right_eq_some.mp is_put
        obtain rfl := Option.some.inj same
        exact member
    | get => cases is_put
    | work => cases is_put
  · intro member
    exact ⟨_, member, if_pos rfl⟩

theorem mem_getsAt {script : Script ι β κ} {phase : ℕ} :
    phase ∈ getsAt port script ↔ (phase, Op.get port) ∈ script := by
  simp only [getsAt, List.mem_filterMap]
  constructor
  · rintro ⟨⟨other_phase, op⟩, member, is_get⟩
    cases op with
    | get other =>
        obtain ⟨rfl, same⟩ := Option.ite_none_right_eq_some.mp is_get
        obtain rfl := Option.some.inj same
        exact member
    | put => cases is_get
    | work => cases is_get
  · intro member
    exact ⟨_, member, if_pos rfl⟩

end Ports

/-- Parties with their scripts and ports. -/
structure Net (ρ ι β κ : Type*) where
  script : ρ → Script ι β κ
  /-- The party that uses a port. -/
  owner : ι → ρ
  /-- The other end of the stream. -/
  peer : ι → ι
  /-- Bytes that fit between the two ends. -/
  capacity : ℕ
  /-- Whether a task succeeds, from what the party has got at its ports. -/
  accepts : ρ → κ → (ι → List β) → Bool

/-- State of all parties and streams. -/
structure State (ρ ι β : Type*) where
  /-- Number of instructions a party has completed. -/
  pos : ρ → ℕ
  /-- The party has stopped with an error, which closes its ports. -/
  failed : ρ → Bool
  /-- Bytes put on a port and not yet got at its peer. -/
  wire : ι → List β
  /-- Bytes got from a port. -/
  got : ι → List β

/-- No party has begun. -/
def initial : State ρ ι β := ⟨fun _ => 0, fun _ => false, fun _ => [], fun _ => []⟩

/-- One event. -/
inductive Label (ρ : Type*)
  /-- The party completes its instruction, or fails when a task does. -/
  | move (party : ρ)
  /-- The other end of the stream is closed. -/
  | closed (party : ρ)
  /-- A system call of the party fails. -/
  | error (party : ρ)
  deriving DecidableEq, Repr

variable [DecidableEq ρ] [DecidableEq ι]

/-- The party has completed one more instruction. -/
def State.advance (state : State ρ ι β) (party : ρ) : State ρ ι β :=
  { state with pos := Function.update state.pos party (state.pos party + 1) }

/-- The party fails. -/
def State.fail (state : State ρ ι β) (party : ρ) : State ρ ι β :=
  { state with failed := Function.update state.failed party true }

namespace Net

variable (net : Net ρ ι β κ)

/-- Instructions a party has completed. -/
def past (state : State ρ ι β) (party : ρ) : Script ι β κ :=
  (net.script party).take (state.pos party)

/-- Instructions a party has left. -/
def todo (state : State ρ ι β) (party : ρ) : Script ι β κ :=
  (net.script party).drop (state.pos party)

/-- The instruction a party is at. -/
def current (state : State ρ ι β) (party : ρ) : Option (Op ι β κ) :=
  if state.failed party then none else ((net.script party)[state.pos party]?).map Prod.snd

/-- What a party has got at its ports. -/
def view (state : State ρ ι β) (party : ρ) (port : ι) : List β :=
  if net.owner port = party then state.got port else []

/-- The party has failed or uses its ports no more. -/
def Closed (state : State ρ ι β) (party : ρ) : Prop :=
  state.failed party = true ∨ ∀ entry ∈ net.todo state party, entry.2.port? = none

instance (state : State ρ ι β) (party : ρ) : Decidable (net.Closed state party) :=
  inferInstanceAs (Decidable (_ ∨ _))

/-- The transition function. -/
def step (state : State ρ ι β) : Label ρ → Option (State ρ ι β)
  | .move party =>
      match net.current state party with
      | none => none
      | some (.put port byte) =>
          if (state.wire port).length < net.capacity then
            some { state.advance party with
              wire := Function.update state.wire port (state.wire port ++ [byte]) }
          else none
      | some (.get port) =>
          match state.wire (net.peer port) with
          | [] => none
          | byte :: rest =>
              some { state.advance party with
                wire := Function.update state.wire (net.peer port) rest
                got := Function.update state.got port (state.got port ++ [byte]) }
      | some (.work task) =>
          if net.accepts party task (net.view state party) then some (state.advance party)
          else some (state.fail party)
  | .closed party =>
      match net.current state party with
      | some (.put port _) =>
          if net.Closed state (net.owner (net.peer port)) then some (state.fail party) else none
      | some (.get port) =>
          if net.Closed state (net.owner (net.peer port)) ∧ state.wire (net.peer port) = [] then
            some (state.fail party)
          else none
      | some (.work _) | none => none
  | .error party => if (net.current state party).isSome then some (state.fail party) else none

/-- The states of the runs. -/
abbrev Reachable (state : State ρ ι β) : Prop := StepSystem.Reachable net.step initial state

/-- Scripts that fit together. -/
structure Paired : Prop where
  peer_peer : ∀ port, net.peer (net.peer port) = port
  owned : ∀ party, ∀ entry ∈ net.script party, ∀ port, entry.2.port? = some port →
    net.owner port = party
  sorted : ∀ party, (net.script party).Pairwise fun earlier later => earlier.1 ≤ later.1
  /-- Each byte is put in a phase below the one it is got in. -/
  matched : ∀ port, List.Forall₂ (fun put get => put.1 < get)
    (putsAt (net.peer port) (net.script (net.owner (net.peer port))))
    (getsAt port (net.script (net.owner port)))
  room : ∀ port, (putsAt port (net.script (net.owner port))).length ≤ net.capacity

variable {net} {state next : State ρ ι β} {party other : ρ} {port : ι}

omit [DecidableEq ρ] [DecidableEq ι] in
theorem current_eq_some {op : Op ι β κ} :
    net.current state party = some op ↔
      state.failed party = false ∧ ∃ phase,
        (net.script party)[state.pos party]? = some (phase, op) := by
  unfold current
  cases failed : state.failed party <;> simp

/-- What an event does. -/
inductive Moved (net : Net ρ ι β κ) (state : State ρ ι β) : Label ρ → State ρ ι β → Prop
  | put {party : ρ} {phase : ℕ} {port : ι} {byte : β} (running : state.failed party = false)
      (here : (net.script party)[state.pos party]? = some (phase, .put port byte))
      (room : (state.wire port).length < net.capacity) :
      Moved net state (.move party)
        { state.advance party with
          wire := Function.update state.wire port (state.wire port ++ [byte]) }
  | get {party : ρ} {phase : ℕ} {port : ι} {byte : β} {rest : List β}
      (running : state.failed party = false)
      (here : (net.script party)[state.pos party]? = some (phase, .get port))
      (wired : state.wire (net.peer port) = byte :: rest) :
      Moved net state (.move party)
        { state.advance party with
          wire := Function.update state.wire (net.peer port) rest
          got := Function.update state.got port (state.got port ++ [byte]) }
  | work {party : ρ} {phase : ℕ} {task : κ} (running : state.failed party = false)
      (here : (net.script party)[state.pos party]? = some (phase, .work task))
      (accepted : net.accepts party task (net.view state party) = true) :
      Moved net state (.move party) (state.advance party)
  | refused {party : ρ} {phase : ℕ} {task : κ} (running : state.failed party = false)
      (here : (net.script party)[state.pos party]? = some (phase, .work task))
      (refuses : net.accepts party task (net.view state party) = false) :
      Moved net state (.move party) (state.fail party)
  | closed {party : ρ} {phase : ℕ} {port : ι} {op : Op ι β κ} (running : state.failed party = false)
      (here : (net.script party)[state.pos party]? = some (phase, op)) (uses : op.port? = some port)
      (closed : net.Closed state (net.owner (net.peer port)))
      (drained : op = .get port → state.wire (net.peer port) = []) :
      Moved net state (.closed party) (state.fail party)
  | error {party : ρ} (running : state.failed party = false) :
      Moved net state (.error party) (state.fail party)

theorem moved_of_step {label : Label ρ} (taken : net.step state label = some next) :
    net.Moved state label next := by
  cases label with
  | move party =>
      cases at_op : net.current state party with
      | none => simp [step, at_op] at taken
      | some op =>
          obtain ⟨running, phase, here⟩ := current_eq_some.mp at_op
          cases op with
          | put port byte =>
              simp only [step, at_op, Option.ite_none_right_eq_some, Option.some.injEq] at taken
              obtain ⟨room, rfl⟩ := taken
              exact .put running here room
          | get port =>
              cases wired : state.wire (net.peer port) with
              | nil => simp [step, at_op, wired] at taken
              | cons byte rest =>
                  simp only [step, at_op, wired, Option.some.injEq] at taken
                  subst taken
                  exact .get running here wired
          | work task =>
              simp only [step, at_op] at taken
              cases verdict : net.accepts party task (net.view state party) with
              | true =>
                  obtain rfl := Option.some.inj (by simpa [verdict] using taken)
                  exact .work running here verdict
              | false =>
                  obtain rfl := Option.some.inj (by simpa [verdict] using taken)
                  exact .refused running here verdict
  | closed party =>
      cases at_op : net.current state party with
      | none => simp [step, at_op] at taken
      | some op =>
          obtain ⟨running, phase, here⟩ := current_eq_some.mp at_op
          cases op with
          | put port byte =>
              simp only [step, at_op, Option.ite_none_right_eq_some, Option.some.injEq] at taken
              obtain ⟨closed, rfl⟩ := taken
              exact .closed running here rfl closed nofun
          | get port =>
              simp only [step, at_op, Option.ite_none_right_eq_some, Option.some.injEq] at taken
              obtain ⟨⟨closed, drained⟩, rfl⟩ := taken
              exact .closed running here rfl closed fun _ => drained
          | work task => simp [step, at_op] at taken
  | error party =>
      simp only [step, Option.ite_none_right_eq_some, Option.some.injEq] at taken
      obtain ⟨some_op, rfl⟩ := taken
      obtain ⟨op, at_op⟩ := Option.isSome_iff_exists.mp some_op
      exact .error (current_eq_some.mp at_op).1

omit [DecidableEq ι] in
@[simp] theorem past_fail (party other : ρ) :
    net.past (state.fail party) other = net.past state other := rfl

omit [DecidableEq ι] in
/-- A party has completed its instruction. -/
theorem past_of_pos {entry : ℕ × Op ι β κ}
    (here : (net.script party)[state.pos party]? = some entry)
    (moved : next.pos = Function.update state.pos party (state.pos party + 1)) :
    net.past next party = net.past state party ++ [entry] := by
  rw [past, past, moved, Function.update_self, List.take_add_one, here, Option.toList_some]

omit [DecidableEq ι] in
theorem past_of_pos_ne (moved : next.pos = Function.update state.pos party (state.pos party + 1))
    (apart : other ≠ party) : net.past next other = net.past state other := by
  rw [past, past, moved, Function.update_of_ne apart]

/-- What is on the streams follows from how far the parties are. -/
structure Inv (net : Net ρ ι β κ) (state : State ρ ι β) : Prop where
  within : ∀ party, state.pos party ≤ (net.script party).length
  /-- Bytes are got in the order they were put in. -/
  history : ∀ port, state.got (net.peer port) ++ state.wire port =
    (putsAt port (net.past state (net.owner port))).map Prod.snd
  counted : ∀ port,
    (state.got port).length = (getsAt port (net.past state (net.owner port))).length

omit [DecidableEq ρ] in
theorem inv_initial : net.Inv (initial : State ρ ι β) where
  within := fun _ => Nat.zero_le _
  history := fun _ => rfl
  counted := fun _ => rfl

theorem Inv.fail (inv : net.Inv state) (party : ρ) : net.Inv (state.fail party) :=
  ⟨inv.within, inv.history, inv.counted⟩

theorem Inv.within_of_pos (inv : net.Inv state) {entry : ℕ × Op ι β κ}
    (here : (net.script party)[state.pos party]? = some entry)
    (moved : next.pos = Function.update state.pos party (state.pos party + 1)) (other : ρ) :
    next.pos other ≤ (net.script other).length := by
  rw [moved]
  by_cases same : other = party
  · subst same
    obtain ⟨inside, -⟩ := List.getElem?_eq_some_iff.mp here
    rw [Function.update_self]
    omega
  · rw [Function.update_of_ne same]
    exact inv.within other

omit [DecidableEq ρ] in
theorem Paired.owner_eq (paired : net.Paired) {entry : ℕ × Op ι β κ} {k : ℕ}
    (here : (net.script party)[k]? = some entry) (uses : entry.2.port? = some port) :
    net.owner port = party :=
  paired.owned party entry (List.mem_of_getElem? here) port uses

/-- A completed instruction that puts nothing on a port. -/
theorem putsAt_past {entry : ℕ × Op ι β κ}
    (here : (net.script party)[state.pos party]? = some entry)
    (moved : next.pos = Function.update state.pos party (state.pos party + 1))
    (none : putsAt port [entry] = []) :
    putsAt port (net.past next other) = putsAt port (net.past state other) := by
  by_cases owner : other = party
  · rw [owner, past_of_pos here moved, putsAt_append, none, List.append_nil]
  · rw [past_of_pos_ne moved owner]

/-- A completed instruction that gets nothing from a port. -/
theorem getsAt_past {entry : ℕ × Op ι β κ}
    (here : (net.script party)[state.pos party]? = some entry)
    (moved : next.pos = Function.update state.pos party (state.pos party + 1))
    (none : getsAt port [entry] = []) :
    getsAt port (net.past next other) = getsAt port (net.past state other) := by
  by_cases owner : other = party
  · rw [owner, past_of_pos here moved, getsAt_append, none, List.append_nil]
  · rw [past_of_pos_ne moved owner]

theorem inv_step (paired : net.Paired) (inv : net.Inv state) {label : Label ρ}
    (taken : net.step state label = some next) : net.Inv next := by
  cases moved_of_step taken with
  | @put party phase port byte running here room =>
      have own := paired.owner_eq here rfl
      refine ⟨inv.within_of_pos here rfl, fun other => ?_, fun other => ?_⟩
      · have before := inv.history other
        by_cases same : other = port
        · subst same
          rw [own] at before ⊢
          rw [past_of_pos here rfl, putsAt_append, putsAt_put, if_pos rfl, List.map_append,
            ← before, List.append_assoc]
          simp [State.advance]
        · rw [putsAt_past here rfl (by simp [Ne.symm same]), ← before]
          simp [State.advance, same]
      · rw [getsAt_past here rfl (getsAt_put ..)]
        exact inv.counted other
  | @get party phase port byte rest running here wired =>
      have own := paired.owner_eq here rfl
      refine ⟨inv.within_of_pos here rfl, fun other => ?_, fun other => ?_⟩
      · rw [putsAt_past here rfl (putsAt_get ..), ← inv.history other]
        by_cases same : other = net.peer port
        · subst same
          simp [paired.peer_peer, wired]
        · have apart : net.peer other ≠ port := fun back =>
            same (by rw [← back, paired.peer_peer])
          simp [same, apart]
      · have before := inv.counted other
        by_cases same : other = port
        · subst same
          rw [own] at before ⊢
          rw [past_of_pos here rfl, getsAt_append, getsAt_get, if_pos rfl]
          simp [before]
        · rw [getsAt_past here rfl (by simp [Ne.symm same]), ← before]
          simp [same]
  | @work party phase task running here accepted =>
      refine ⟨inv.within_of_pos here rfl, fun other => ?_, fun other => ?_⟩
      · rw [putsAt_past here rfl (putsAt_work ..)]
        exact inv.history other
      · rw [getsAt_past here rfl (getsAt_work ..)]
        exact inv.counted other
  | refused => exact inv.fail _
  | closed => exact inv.fail _
  | error => exact inv.fail _

theorem Reachable.inv (paired : net.Paired) (reach : net.Reachable state) : net.Inv state :=
  StepSystem.Reachable.invariant net.Inv (fun _ _ _ inv taken => inv_step paired inv taken)
    inv_initial reach

/-! ### What parties know of each other -/

omit [DecidableEq ρ] [DecidableEq ι] in
theorem past_append_todo (state : State ρ ι β) (party : ρ) :
    net.past state party ++ net.todo state party = net.script party :=
  List.take_append_drop _ _

omit [DecidableEq ρ] [DecidableEq ι] in
/-- A party that has not ended is at the first of the instructions it has left. -/
theorem todo_eq_cons {entry : ℕ × Op ι β κ}
    (here : (net.script party)[state.pos party]? = some entry) :
    ∃ rest, net.todo state party = entry :: rest := by
  obtain ⟨inside, rfl⟩ := List.getElem?_eq_some_iff.mp here
  exact ⟨_, List.drop_eq_getElem_cons inside⟩

omit [DecidableEq ρ] [DecidableEq ι] in
theorem exists_here {entry : ℕ × Op ι β κ} (left : entry ∈ net.todo state party) :
    ∃ first, (net.script party)[state.pos party]? = some first := by
  have inside : state.pos party < (net.script party).length := by
    by_contra beyond
    rw [todo, List.drop_eq_nil_of_le (by omega)] at left
    cases left
  exact ⟨_, List.getElem?_eq_getElem inside⟩

omit [DecidableEq ρ] in
/-- Phases do not go down from where a party is. -/
theorem Paired.le_of_mem_todo (paired : net.Paired) {here entry : ℕ × Op ι β κ}
    (at_here : (net.script party)[state.pos party]? = some here)
    (left : entry ∈ net.todo state party) : here.1 ≤ entry.1 := by
  obtain ⟨rest, split⟩ := todo_eq_cons at_here
  have sorted : (net.todo state party).Pairwise fun earlier later => earlier.1 ≤ later.1 :=
    (paired.sorted party).sublist (List.drop_sublist _ _)
  rw [split] at sorted left
  rcases List.mem_cons.mp left with rfl | later
  · exact Nat.le_refl _
  · exact (List.pairwise_cons.mp sorted).1 entry later

omit [DecidableEq ρ] in
/-- What is got was put before. -/
theorem Inv.length_got (paired : net.Paired) (inv : net.Inv state) (port : ι) :
    (getsAt port (net.past state (net.owner port))).length +
        (state.wire (net.peer port)).length =
      (putsAt (net.peer port) (net.past state (net.owner (net.peer port)))).length := by
  have history := congrArg List.length (inv.history (net.peer port))
  rw [paired.peer_peer, List.length_append, List.length_map] at history
  rw [← inv.counted port, history]

omit [DecidableEq ρ] in
/-- The bytes that are left to put on a stream and those that are left to get from it, when it is
empty. -/
theorem Inv.matched_todo (paired : net.Paired) (inv : net.Inv state)
    (drained : state.wire (net.peer port) = []) :
    List.Forall₂ (fun put get => put.1 < get)
      (putsAt (net.peer port) (net.todo state (net.owner (net.peer port))))
      (getsAt port (net.todo state (net.owner port))) := by
  have even := inv.length_got paired port
  rw [drained, List.length_nil, Nat.add_zero] at even
  have all := paired.matched port
  rw [← past_append_todo state (net.owner (net.peer port)),
    ← past_append_todo state (net.owner port), putsAt_append, getsAt_append] at all
  have left := List.forall₂_drop (getsAt port (net.past state (net.owner port))).length all
  rwa [List.drop_left, even, List.drop_left] at left

omit [DecidableEq ρ] in
/-- Before a party gets a byte, the other end has completed all phases below the one it puts the
byte in. -/
theorem Inv.behind (paired : net.Paired) (inv : net.Inv state) {k : ℕ} {put : ℕ × β}
    (got : k < (getsAt port (net.past state (net.owner port))).length)
    (named : (putsAt (net.peer port) (net.script (net.owner (net.peer port))))[k]? = some put) :
    ∀ entry ∈ net.todo state (net.owner (net.peer port)), put.1 ≤ entry.1 := by
  intro entry left
  have even := inv.length_got paired port
  rw [← past_append_todo state (net.owner (net.peer port)), putsAt_append,
    List.getElem?_append_left (by omega)] at named
  have earlier := mem_putsAt.mp (List.mem_of_getElem? named)
  have sorted := paired.sorted (net.owner (net.peer port))
  rw [← past_append_todo state (net.owner (net.peer port))] at sorted
  exact (List.pairwise_append.mp sorted).2.2 _ earlier entry left

end Net

end Scripts
