import NanoNccl.Lib.Counting
import NanoNccl.Lib.Fairness
import NanoNccl.Lib.Scripts

/-!
# Runs of scripts

Scripts that fit together never block each other: as long as a party has not ended, some party can
move. Every run is finite, what a party has got follows from where it is, and without errors all
parties end when all their tasks succeed.
-/

namespace Scripts

variable {ρ ι β κ : Type*} [DecidableEq ρ] [DecidableEq ι]

namespace Net

variable {net : Net ρ ι β κ} {state next : State ρ ι β} {party : ρ} {port : ι}

/-! ### Order of the phases -/

omit [DecidableEq ρ] in
/-- What a party has left is in no phase below one it has been in. -/
theorem Paired.le_of_past (paired : net.Paired) {entry later : ℕ × Op ι β κ}
    (behind : entry ∈ net.past state party) (left : later ∈ net.todo state party) :
    entry.1 ≤ later.1 := by
  have sorted := paired.sorted party
  rw [← past_append_todo state party] at sorted
  exact (List.pairwise_append.mp sorted).2.2 entry behind later left

omit [DecidableEq ρ] [DecidableEq ι] in
/-- A party has behind it what comes before all that it has left. -/
theorem mem_past_of_lt {entry : ℕ × Op ι β κ} (member : entry ∈ net.script party)
    (below : ∀ later ∈ net.todo state party, entry.1 < later.1) :
    entry ∈ net.past state party := by
  rw [← past_append_todo state party] at member
  rcases List.mem_append.mp member with behind | left
  · exact behind
  · exact absurd (below entry left) (Nat.lt_irrefl _)

omit [DecidableEq ρ] [DecidableEq ι] in
theorem exists_index_of_past {entry : ℕ × Op ι β κ} (behind : entry ∈ net.past state party) :
    ∃ k < state.pos party, (net.script party)[k]? = some entry := by
  obtain ⟨k, here⟩ := List.mem_iff_getElem?.mp behind
  have inside : k < state.pos party := by
    obtain ⟨short, -⟩ := List.getElem?_eq_some_iff.mp here
    exact Nat.lt_of_lt_of_le short (List.length_take_le _ _)
  exact ⟨k, inside, by rwa [past, List.getElem?_take_of_lt inside] at here⟩

/-! ### No deadlock -/

theorem exists_step_of_phase (paired : net.Paired) (inv : net.Inv state) (phase : ℕ) :
    ∀ (party : ρ) (op : Op ι β κ), state.failed party = false →
      (net.script party)[state.pos party]? = some (phase, op) →
        ∃ party, (∃ next, net.step state (.move party) = some next) ∨
          ∃ next, net.step state (.closed party) = some next := by
  induction phase using Nat.strong_induction_on with
  | _ phase lower =>
    intro party op running here
    have at_op : net.current state party = some op := current_eq_some.mpr ⟨running, phase, here⟩
    cases op with
    | work task =>
        refine ⟨party, .inl ?_⟩
        simp only [step, at_op]
        split
        · exact ⟨_, rfl⟩
        · exact ⟨_, rfl⟩
    | put port byte =>
        have own := paired.owner_eq here rfl
        obtain ⟨rest, split⟩ := todo_eq_cons here
        have whole : net.past state (net.owner port) ++ net.todo state (net.owner port) =
          net.script (net.owner port) := past_append_todo state (net.owner port)
        have all := congrArg (fun script => (putsAt port script).length) whole
        have history := congrArg List.length (inv.history port)
        have room : (state.wire port).length < net.capacity := by
          have fits := paired.room port
          rw [own] at all history fits
          rw [split, putsAt_append, List.length_append, ← List.singleton_append, putsAt_append,
            putsAt_put, if_pos rfl, List.length_append, List.length_singleton] at all
          rw [List.length_append, List.length_map] at history
          omega
        exact ⟨party, .inl ⟨_, by simp only [step, at_op, if_pos room]; rfl⟩⟩
    | get port =>
        have own := paired.owner_eq here rfl
        cases wired : state.wire (net.peer port) with
        | cons byte rest => exact ⟨party, .inl ⟨_, by simp only [step, at_op, wired]; rfl⟩⟩
        | nil =>
            by_cases closed : net.Closed state (net.owner (net.peer port))
            · exact ⟨party, .inr ⟨_, by
                simp only [step, at_op, if_pos (And.intro closed wired)]; rfl⟩⟩
            · -- The party that this one waits for is in a phase below.
              obtain ⟨awake, uses⟩ := not_or.mp closed
              push Not at uses
              obtain ⟨entry, left, -⟩ := uses
              obtain ⟨⟨phase', op'⟩, here'⟩ := exists_here left
              obtain ⟨rest, split⟩ := todo_eq_cons here
              have matched := inv.matched_todo paired wired
              rw [own, split, ← List.singleton_append, getsAt_append, getsAt_get, if_pos rfl,
                List.singleton_append] at matched
              obtain ⟨put, puts, below, -, all⟩ := List.forall₂_cons_right_iff.mp matched
              have member : put ∈ putsAt (net.peer port)
                  (net.todo state (net.owner (net.peer port))) := by rw [all]; simp
              have low : phase' ≤ put.1 := paired.le_of_mem_todo here' (mem_putsAt.mp member)
              exact lower phase' (by omega) _ op' (by simpa using awake) here'

/-- As long as a party has not ended, some party can move on its own. -/
theorem exists_step (paired : net.Paired) (inv : net.Inv state)
    (running : state.failed party = false)
    (unfinished : state.pos party < (net.script party).length) :
    ∃ party, (∃ next, net.step state (.move party) = some next) ∨
      ∃ next, net.step state (.closed party) = some next :=
  exists_step_of_phase paired inv _ party _ running (List.getElem?_eq_getElem unfinished)

/-! ### Every run ends -/

/-- Events a party can still take part in. -/
def eventsLeft (state : State ρ ι β) (party : ρ) : ℕ :=
  if state.failed party then 0 else (net.script party).length - state.pos party + 1

omit [DecidableEq ι] in
theorem eventsLeft_advance (running : state.failed party = false)
    {entry : ℕ × Op ι β κ} (here : (net.script party)[state.pos party]? = some entry)
    (moved : next.pos = Function.update state.pos party (state.pos party + 1))
    (same : next.failed = state.failed) :
    net.eventsLeft next party + 1 ≤ net.eventsLeft state party ∧
      ∀ other, other ≠ party → net.eventsLeft next other = net.eventsLeft state other := by
  obtain ⟨inside, -⟩ := List.getElem?_eq_some_iff.mp here
  unfold eventsLeft
  refine ⟨?_, fun other apart => ?_⟩
  · rw [same, moved, running, Function.update_self]
    simp only [Bool.false_eq_true, if_false]
    omega
  · rw [same, moved, Function.update_of_ne apart]

omit [DecidableEq ι] in
theorem eventsLeft_fail (running : state.failed party = false) :
    net.eventsLeft (state.fail party) party + 1 ≤ net.eventsLeft state party ∧
      ∀ other, other ≠ party →
        net.eventsLeft (state.fail party) other = net.eventsLeft state other := by
  unfold eventsLeft State.fail
  refine ⟨?_, fun other apart => ?_⟩
  · simp [running]
  · simp [Function.update_of_ne apart]

/-- An event takes one of those that are left to its party. -/
theorem eventsLeft_step {label : Label ρ} (taken : net.step state label = some next) :
    ∃ party, net.eventsLeft next party + 1 ≤ net.eventsLeft state party ∧
      ∀ other, other ≠ party → net.eventsLeft next other = net.eventsLeft state other := by
  cases moved_of_step taken with
  | put running here => exact ⟨_, eventsLeft_advance running here rfl rfl⟩
  | get running here => exact ⟨_, eventsLeft_advance running here rfl rfl⟩
  | work running here => exact ⟨_, eventsLeft_advance running here rfl rfl⟩
  | refused running => exact ⟨_, eventsLeft_fail running⟩
  | closed running => exact ⟨_, eventsLeft_fail running⟩
  | error running => exact ⟨_, eventsLeft_fail running⟩

/-- A run has at most as many events as the scripts have instructions, and one more for each
party. -/
theorem length_le [Fintype ρ] {labels : List (Label ρ)}
    (execution : StepSystem.exec net.step initial labels = some state) :
    labels.length ≤ ∑ party, ((net.script party).length + 1) := by
  have pays := StepSystem.exec_pays (fun state => ∑ party, net.eventsLeft state party)
    (fun _ : Label ρ => false) (fun state label next taken => by
      obtain ⟨party, drops, same⟩ := eventsLeft_step taken
      exact Counting.sum_drops (Finset.mem_univ party) (fun other _ apart => same other apart)
        drops) execution
  have start : ∑ party, net.eventsLeft (initial : State ρ ι β) party =
      ∑ party, ((net.script party).length + 1) := rfl
  have all : labels.filter (fun _ => !false) = labels := List.filter_true labels
  rw [all] at pays
  omega

/-! ### What parties get -/

/-- Everything that is to be got at a port. -/
def message (port : ι) : List β :=
  (putsAt (net.peer port) (net.script (net.owner (net.peer port)))).map Prod.snd

/-- What a party has got at its ports behind some instructions of its script. -/
def viewAt (party : ρ) (past : Script ι β κ) (port : ι) : List β :=
  if net.owner port = party then (net.message port).take (getsAt port past).length else []

omit [DecidableEq ρ] in
theorem Inv.got_eq (paired : net.Paired) (inv : net.Inv state) (port : ι) :
    state.got port =
      (net.message port).take (getsAt port (net.past state (net.owner port))).length := by
  have history := inv.history (net.peer port)
  rw [paired.peer_peer] at history
  rw [message, ← past_append_todo state (net.owner (net.peer port)), putsAt_append, List.map_append,
    ← history, ← inv.counted port, List.append_assoc, List.take_left]

theorem Inv.view_eq (paired : net.Paired) (inv : net.Inv state) (party : ρ) :
    net.view state party = net.viewAt party (net.past state party) := by
  funext port
  unfold view viewAt
  split
  · rename_i own
    rw [inv.got_eq paired port, own]
  · rfl

/-- The tasks a party has behind it have succeeded. -/
def Succeeded (net : Net ρ ι β κ) (state : State ρ ι β) : Prop :=
  ∀ party k phase task, k < state.pos party →
    (net.script party)[k]? = some (phase, .work task) →
      net.accepts party task (net.viewAt party ((net.script party).take k)) = true

theorem succeeded_step (paired : net.Paired) (inv : net.Inv state)
    (succeeded : net.Succeeded state) {label : Label ρ}
    (taken : net.step state label = some next) : net.Succeeded next := by
  -- Only the instruction that is completed now is new.
  have advanced {party : ρ} {entry : ℕ × Op ι β κ}
      (here : (net.script party)[state.pos party]? = some entry)
      (moved : next.pos = Function.update state.pos party (state.pos party + 1))
      (now : ∀ task, entry.2 = .work task →
        net.accepts party task (net.viewAt party (net.past state party)) = true) :
      net.Succeeded next := by
    intro other k phase task before named
    rw [moved] at before
    by_cases same : other = party
    · subst same
      rw [Function.update_self] at before
      rcases Nat.lt_succ_iff_lt_or_eq.mp before with earlier | rfl
      · exact succeeded other k phase task earlier named
      · exact now task (by rw [Option.some.inj (here.symm.trans named)])
    · rw [Function.update_of_ne same] at before
      exact succeeded other k phase task before named
  cases moved_of_step taken with
  | put running here => exact advanced here rfl nofun
  | get running here => exact advanced here rfl nofun
  | @work party phase task running here accepted =>
      refine advanced here rfl fun other same => ?_
      obtain rfl := Op.work.inj same
      rwa [← inv.view_eq paired]
  | refused => exact succeeded
  | closed => exact succeeded
  | error => exact succeeded

theorem Reachable.succeeded (paired : net.Paired) (reach : net.Reachable state) :
    net.Succeeded state := by
  have both : net.Inv state ∧ net.Succeeded state :=
    StepSystem.Reachable.invariant (fun state => net.Inv state ∧ net.Succeeded state)
      (fun _ _ _ held taken =>
        ⟨inv_step paired held.1 taken, succeeded_step paired held.1 held.2 taken⟩)
      ⟨inv_initial, fun _ _ _ _ none => absurd none (Nat.not_lt_zero _)⟩ reach
  exact both.2

/-! ### Runs without errors -/

/-- All tasks of all scripts succeed. -/
def Accepting (net : Net ρ ι β κ) : Prop :=
  ∀ party k phase task, (net.script party)[k]? = some (phase, .work task) →
    net.accepts party task (net.viewAt party ((net.script party).take k)) = true

omit [DecidableEq ρ] in
/-- A party that waits at a port waits for one that has not yet closed its ports. -/
theorem Inv.not_closed (paired : net.Paired) (inv : net.Inv state)
    (unfailed : ∀ party, state.failed party = false) {phase : ℕ} {op : Op ι β κ}
    (here : (net.script party)[state.pos party]? = some (phase, op)) (uses : op.port? = some port)
    (closed : net.Closed state (net.owner (net.peer port)))
    (drained : op = .get port → state.wire (net.peer port) = []) : False := by
  have own := paired.owner_eq here uses
  obtain ⟨rest, split⟩ := todo_eq_cons here
  have ended := closed.resolve_left (by simp [unfailed])
  cases op with
  | work => cases uses
  | get other =>
      obtain rfl : other = port := Option.some.inj uses
      have matched := inv.matched_todo paired (drained rfl)
      rw [own, split, ← List.singleton_append, getsAt_append, getsAt_get, if_pos rfl,
        List.singleton_append] at matched
      obtain ⟨put, puts, -, -, all⟩ := List.forall₂_cons_right_iff.mp matched
      have member : put ∈ putsAt (net.peer other)
          (net.todo state (net.owner (net.peer other))) := by rw [all]; simp
      cases ended _ (mem_putsAt.mp member)
  | put other byte =>
      obtain rfl : other = port := Option.some.inj uses
      -- The other end has got as many bytes as there are puts, this one among them.
      have counts := (paired.matched (net.peer other)).length_eq
      have even := inv.length_got paired (net.peer other)
      have got : getsAt (net.peer other) (net.todo state (net.owner (net.peer other))) = [] := by
        refine List.eq_nil_iff_forall_not_mem.mpr fun phase member => ?_
        cases ended _ (mem_getsAt.mp member)
      rw [paired.peer_peer] at counts even
      rw [← past_append_todo state (net.owner (net.peer other)),
        ← past_append_todo state (net.owner other), putsAt_append, getsAt_append, got, own, split,
        ← List.singleton_append, putsAt_append, putsAt_put, if_pos rfl] at counts
      rw [own] at even
      simp only [List.length_append, List.length_singleton, List.length_nil] at counts
      omega

theorem unfailed_step (paired : net.Paired) (accepting : net.Accepting) (inv : net.Inv state)
    (unfailed : ∀ party, state.failed party = false) {label : Label ρ}
    (no_error : ∀ party, label ≠ .error party) (taken : net.step state label = some next) :
    ∀ party, next.failed party = false := by
  cases moved_of_step taken with
  | put => exact unfailed
  | get => exact unfailed
  | work => exact unfailed
  | @refused party phase task running here refuses =>
      have accepted := accepting party _ phase task here
      rw [inv.view_eq paired] at refuses
      cases accepted.symm.trans refuses
  | closed running here uses closed drained =>
      exact (inv.not_closed paired unfailed here uses closed drained).elim
  | error => exact absurd rfl (no_error _)

/-- As long as all tasks succeed and no call fails, all parties can be brought to their end. -/
theorem exists_ended [Fintype ρ] (paired : net.Paired) (accepting : net.Accepting)
    (inv : net.Inv state) (unfailed : ∀ party, state.failed party = false) :
    ∃ labels final, StepSystem.exec net.step state labels = some final ∧
      (∀ party, .error party ∉ labels) ∧ ∀ party, final.pos party = (net.script party).length := by
  induction size : ∑ party, net.eventsLeft state party using Nat.strong_induction_on
    generalizing state with
  | _ size smaller =>
    by_cases ended : ∀ party, state.pos party = (net.script party).length
    · exact ⟨[], state, rfl, by simp, ended⟩
    · obtain ⟨party, open_end⟩ := not_forall.mp ended
      have within := inv.within party
      obtain ⟨label, next, no_error, taken⟩ : ∃ label next,
          (∀ party : ρ, label ≠ .error party) ∧ net.step state label = some next := by
        obtain ⟨other, ⟨next, taken⟩ | ⟨next, taken⟩⟩ :=
          exists_step paired inv (unfailed party) (by omega : state.pos party < _)
        · exact ⟨_, next, by simp, taken⟩
        · exact ⟨_, next, by simp, taken⟩
      obtain ⟨mover, drops, same⟩ := eventsLeft_step taken
      have less := Counting.sum_drops (Finset.mem_univ mover)
        (fun other _ apart => same other apart) drops
      obtain ⟨labels, final, execution, clean, finished⟩ := smaller _ (by omega)
        (inv_step paired inv taken)
        (unfailed_step paired accepting inv unfailed no_error taken) rfl
      refine ⟨label :: labels, final, ?_, fun party member => ?_, finished⟩
      · rw [StepSystem.exec_cons, taken, Option.bind_some, execution]
      · rcases List.mem_cons.mp member with same | later
        · exact no_error party same.symm
        · exact clean party later

end Net

end Scripts
