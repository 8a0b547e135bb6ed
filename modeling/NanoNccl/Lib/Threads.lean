import Mathlib.Data.List.Basic
import Mathlib.Logic.Function.Basic
import NanoNccl.Lib.Execution
import NanoNccl.Lib.Memory

/-!
# Threads over one memory

A program of a thread makes one access after the other; what it does next may depend on the values
it loads. Threads of one block run in any interleaving of their accesses. When no thread stores to
an address another one touches, every thread sees what it would see alone, and the memory ends as
if each had run alone.
-/

namespace Threads

/-- A program over cells of type `α`; a signal has no effect on the memory. -/
inductive Program (α κ β : Type)
  | done (result : β)
  | load (addr : ℕ) (next : α → Program α κ β)
  | store (addr : ℕ) (value : α) (next : Program α κ β)
  | signal (sign : κ) (next : Program α κ β)

/-- One access of a thread. -/
inductive Event (α κ : Type)
  | load (addr : ℕ) (value : α)
  | store (addr : ℕ) (value : α)
  | signal (sign : κ)
  deriving DecidableEq

/-- The address of an access. -/
def Event.addr {α κ : Type} : Event α κ → Option ℕ
  | .load addr _ => some addr
  | .store addr _ => some addr
  | .signal _ => none

/-- The signal of an event that is one. -/
def Event.sign {α κ : Type} : Event α κ → Option κ
  | .signal sign => some sign
  | _ => none

variable {α κ β γ : Type}

namespace Program

def bind : Program α κ β → (β → Program α κ γ) → Program α κ γ
  | .done result, next => next result
  | .load addr rest, next => .load addr fun value => (rest value).bind next
  | .store addr value rest, next => .store addr value (rest.bind next)
  | .signal sign rest, next => .signal sign (rest.bind next)

instance : Monad (Program α κ) where
  pure := .done
  bind := bind

/-- The cell at an address. -/
def read (addr : ℕ) : Program α κ α := .load addr .done

/-- Store one cell. -/
def write (addr : ℕ) (value : α) : Program α κ Unit := .store addr value (.done ())

/-- Give a signal. -/
def emit (sign : κ) : Program α κ Unit := .signal sign (.done ())

/-- The cells of an interval, in order. -/
def readCells : ℕ → ℕ → Program α κ (List α)
  | _, 0 => pure []
  | addr, len + 1 => do
      let value ← read addr
      let values ← readCells (addr + 1) len
      pure (value :: values)

/-- Store values to consecutive cells. -/
def writeCells : ℕ → List α → Program α κ Unit
  | _, [] => pure ()
  | addr, value :: values => do
      write addr value
      writeCells (addr + 1) values

/-- The body for each entry of a list, one after the other. -/
def forEach {ι : Type} : List ι → (ι → Program α κ Unit) → Program α κ Unit
  | [], _ => pure ()
  | entry :: entries, body => do
      body entry
      forEach entries body

theorem bind_assoc (first : Program α κ β) (second : β → Program α κ γ) {δ : Type}
    (third : γ → Program α κ δ) :
    first >>= second >>= third = first >>= fun value => second value >>= third := by
  change (first.bind second).bind third = first.bind fun value => (second value).bind third
  induction first with
  | done result => rfl
  | load addr rest ih => simp [bind, ih]
  | store addr value rest ih => simp [bind, ih]
  | signal sign rest ih => simp [bind, ih]

instance : LawfulMonad (Program α κ) :=
  LawfulMonad.mk' _
    (fun program => by
      change program.bind .done = program
      induction program with
      | done result => rfl
      | load addr rest ih => simp [bind, ih]
      | store addr value rest ih => simp [bind, ih]
      | signal sign rest ih => simp [bind, ih])
    (fun _ _ => rfl) fun first second third => bind_assoc first second third

variable {ι ι' : Type}

theorem forEach_append (first second : List ι) (body : ι → Program α κ Unit) :
    forEach (first ++ second) body = (do forEach first body; forEach second body) := by
  induction first with
  | nil => rfl
  | cons entry entries ih =>
      rw [List.cons_append, forEach, forEach, ih, bind_assoc]

theorem forEach_map (entries : List ι) (change : ι → ι') (body : ι' → Program α κ Unit) :
    forEach (entries.map change) body = forEach entries fun entry => body (change entry) := by
  induction entries with
  | nil => rfl
  | cons entry entries ih => rw [List.map_cons, forEach, forEach, ih]

end Program

/-- What a thread that runs alone leaves behind. -/
structure Outcome (α κ β : Type) where
  result : β
  memory : ℕ → α
  events : List (Event α κ)

/-- Run a program alone. -/
def solo : Program α κ β → (ℕ → α) → Outcome α κ β
  | .done result, memory => ⟨result, memory, []⟩
  | .load addr next, memory =>
      let later := solo (next (memory addr)) memory
      ⟨later.result, later.memory, .load addr (memory addr) :: later.events⟩
  | .store addr value next, memory =>
      let later := solo next (Function.update memory addr value)
      ⟨later.result, later.memory, .store addr value :: later.events⟩
  | .signal sign next, memory =>
      let later := solo next memory
      ⟨later.result, later.memory, .signal sign :: later.events⟩

section Solo

variable (memory : ℕ → α)

@[simp] theorem solo_pure (result : β) :
    solo (pure result : Program α κ β) memory = ⟨result, memory, []⟩ := rfl

@[simp] theorem solo_read (addr : ℕ) :
    solo (Program.read addr : Program α κ α) memory =
      ⟨memory addr, memory, [.load addr (memory addr)]⟩ := rfl

@[simp] theorem solo_write (addr : ℕ) (value : α) :
    solo (Program.write addr value : Program α κ Unit) memory =
      ⟨(), Function.update memory addr value, [.store addr value]⟩ := rfl

@[simp] theorem solo_emit (sign : κ) :
    solo (Program.emit sign : Program α κ Unit) memory = ⟨(), memory, [.signal sign]⟩ := rfl

theorem solo_bind (first : Program α κ β) (next : β → Program α κ γ) :
    solo (first >>= next) memory =
      ⟨(solo (next (solo first memory).result) (solo first memory).memory).result,
        (solo (next (solo first memory).result) (solo first memory).memory).memory,
        (solo first memory).events ++
          (solo (next (solo first memory).result) (solo first memory).memory).events⟩ := by
  change solo (first.bind next) memory = _
  induction first generalizing memory with
  | done result => rfl
  | load addr rest ih => simp [Program.bind, solo, ih]
  | store addr value rest ih => simp [Program.bind, solo, ih]
  | signal sign rest ih => simp [Program.bind, solo, ih]

end Solo

/-- A program that finds the same values at the addresses it loads does the same. -/
theorem solo_congr (program : Program α κ β) {memory other : ℕ → α}
    (same : ∀ addr value, Event.load addr value ∈ (solo program memory).events →
      other addr = memory addr) :
    (solo program other).events = (solo program memory).events ∧
      ∀ addr, other addr = memory addr →
        (solo program other).memory addr = (solo program memory).memory addr := by
  induction program generalizing memory other with
  | done result => exact ⟨rfl, fun addr agree => agree⟩
  | load addr next ih =>
      have here : other addr = memory addr := same addr (memory addr) List.mem_cons_self
      obtain ⟨events, cells⟩ := ih (memory addr) fun later value member =>
        same later value (List.mem_cons_of_mem _ member)
      simp only [solo, here, events, true_and]
      exact cells
  | store addr value next ih =>
      have agree (cell : ℕ) (equal : other cell = memory cell) :
          Function.update other addr value cell = Function.update memory addr value cell := by
        simp only [Function.update_apply, equal]
      obtain ⟨events, cells⟩ := ih fun later loaded member =>
        agree later (same later loaded (List.mem_cons_of_mem _ member))
      simp only [solo, events, true_and]
      exact fun cell equal => cells cell (agree cell equal)
  | signal sign next ih =>
      obtain ⟨events, cells⟩ := ih fun later value member =>
        same later value (List.mem_cons_of_mem _ member)
      simp only [solo, events, true_and]
      exact cells

/-- A cell a program does not store to keeps its value. -/
theorem solo_frame (program : Program α κ β) (memory : ℕ → α) {addr : ℕ}
    (untouched : ∀ value, Event.store addr value ∉ (solo program memory).events) :
    (solo program memory).memory addr = memory addr := by
  induction program generalizing memory with
  | done result => rfl
  | load cell next ih =>
      exact ih (memory cell) memory fun value member =>
        untouched value (List.mem_cons_of_mem _ member)
  | store cell stored next ih =>
      have later := ih (Function.update memory cell stored) fun value member =>
        untouched value (List.mem_cons_of_mem _ member)
      have other : addr ≠ cell := by
        rintro rfl
        exact untouched stored List.mem_cons_self
      exact later.trans (Function.update_of_ne other _ _)
  | signal sign next ih =>
      exact ih memory fun value member => untouched value (List.mem_cons_of_mem _ member)

/-- A cell to which a program stores one value only ends with that value. -/
theorem solo_stored (program : Program α κ β) (memory : ℕ → α) {addr : ℕ} {value : α}
    (stores : Event.store addr value ∈ (solo program memory).events)
    (only : ∀ other, Event.store addr other ∈ (solo program memory).events → other = value) :
    (solo program memory).memory addr = value := by
  induction program generalizing memory with
  | done result => cases stores
  | load cell next ih =>
      have later : Event.store addr value ∈ (solo (next (memory cell)) memory).events := by
        simpa [solo] using stores
      exact ih (memory cell) memory later fun other member =>
        only other (List.mem_cons_of_mem _ member)
  | store cell stored next ih =>
      by_cases later : ∃ other,
          Event.store addr other ∈ (solo next (Function.update memory cell stored)).events
      · obtain ⟨other, member⟩ := later
        obtain rfl := only other (List.mem_cons_of_mem _ member)
        exact ih _ member fun other member => only other (List.mem_cons_of_mem _ member)
      · have untouched (other : α) :
            Event.store addr other ∉ (solo next (Function.update memory cell stored)).events :=
          fun member => later ⟨other, member⟩
        have here : addr = cell ∧ value = stored := by
          rcases List.mem_cons.mp stores with first | member
          · simpa using first
          · exact absurd member (untouched value)
        obtain ⟨rfl, rfl⟩ := here
        exact (solo_frame next _ untouched).trans (Function.update_self _ _ _)
  | signal sign next ih =>
      have later : Event.store addr value ∈ (solo next memory).events := by
        simpa [solo] using stores
      exact ih memory later fun other member => only other (List.mem_cons_of_mem _ member)

section Cells

variable (memory : ℕ → α)

/-- Signals leave the memory alone. -/
theorem solo_forEach_emit (signs : List κ) :
    solo (Program.forEach signs Program.emit : Program α κ Unit) memory =
      ⟨(), memory, signs.map .signal⟩ := by
  induction signs with
  | nil => rfl
  | cons sign signs ih => simp only [Program.forEach, solo_bind, solo_emit, ih, List.map_cons,
      List.singleton_append]

theorem solo_readCells (addr len : ℕ) :
    solo (Program.readCells addr len : Program α κ (List α)) memory =
      ⟨Memory.block memory addr len, memory,
        (List.range len).map fun k => .load (addr + k) (memory (addr + k))⟩ := by
  induction len generalizing addr with
  | zero => rfl
  | succ len ih =>
      simp only [Program.readCells, solo_bind, solo_read, ih, solo_pure, List.append_nil,
        Memory.block, List.range_succ_eq_map, List.map_cons, List.map_map, Nat.add_zero]
      congr 1
      · congr 1
        exact List.map_congr_left fun k _ => by simp [Nat.add_assoc, Nat.add_comm 1]
      · rw [List.singleton_append]
        congr 1
        exact List.map_congr_left fun k _ => by simp [Nat.add_assoc, Nat.add_comm 1]

theorem mem_solo_writeCells {addr : ℕ} {values : List α} {event : Event α κ} :
    event ∈ (solo (Program.writeCells addr values : Program α κ Unit) memory).events ↔
      ∃ k value, values[k]? = some value ∧ event = .store (addr + k) value := by
  induction values generalizing addr memory with
  | nil => simp [Program.writeCells]
  | cons value values ih =>
      simp only [Program.writeCells, solo_bind, solo_write, List.singleton_append, List.mem_cons,
        ih]
      constructor
      · rintro (rfl | ⟨k, later, found, rfl⟩)
        · exact ⟨0, value, rfl, rfl⟩
        · exact ⟨k + 1, later, found, by rw [Nat.add_assoc, Nat.add_comm 1]⟩
      · rintro ⟨_ | k, later, found, rfl⟩
        · obtain rfl : value = later := by simpa using found
          exact .inl rfl
        · exact .inr ⟨k, later, by simpa using found, by rw [Nat.add_assoc, Nat.add_comm 1]⟩

/-- What the first entries of a loop leave is the start of the rest. -/
theorem solo_forEach_cons {ι : Type} (entry : ι) (entries : List ι) (body : ι → Program α κ Unit) :
    (solo (Program.forEach (entry :: entries) body) memory).events =
      (solo (body entry) memory).events ++
        (solo (Program.forEach entries body) (solo (body entry) memory).memory).events := by
  rw [Program.forEach, solo_bind]

/-- The accesses of a loop whose iterations access the same cells whatever the memory holds. -/
theorem mem_solo_forEach {ι : Type} {entries : List ι} {body : ι → Program α κ Unit}
    {accesses : ι → Event α κ → Prop} {event : Event α κ}
    (each : ∀ entry ∈ entries, ∀ memory event,
      event ∈ (solo (body entry) memory).events ↔ accesses entry event) :
    event ∈ (solo (Program.forEach entries body) memory).events ↔
      ∃ entry ∈ entries, accesses entry event := by
  induction entries generalizing memory with
  | nil => simp [Program.forEach]
  | cons entry entries ih =>
      rw [solo_forEach_cons, List.mem_append, each entry List.mem_cons_self,
        ih _ fun later member => each later (List.mem_cons_of_mem _ member)]
      simp

end Cells

/-! ### Interleavings -/

/-- The threads of a block, their memory and all accesses so far. -/
structure Block (α κ : Type) where
  memory : ℕ → α
  program : ℕ → Program α κ Unit
  log : List (ℕ × Event α κ)

/-- A block about to run. -/
def Block.start (memory : ℕ → α) (program : ℕ → Program α κ Unit) : Block α κ :=
  ⟨memory, program, []⟩

/-- The next access of a thread. -/
def step (block : Block α κ) (thread : ℕ) : Option (Block α κ) :=
  match block.program thread with
  | .done _ => none
  | .load addr next =>
      some
        { block with
          program := Function.update block.program thread (next (block.memory addr))
          log := block.log ++ [(thread, .load addr (block.memory addr))] }
  | .store addr value next =>
      some
        { memory := Function.update block.memory addr value
          program := Function.update block.program thread next
          log := block.log ++ [(thread, .store addr value)] }
  | .signal sign next =>
      some
        { block with
          program := Function.update block.program thread next
          log := block.log ++ [(thread, .signal sign)] }

/-- The accesses of one thread in a log. -/
def ofThread (log : List (ℕ × Event α κ)) (thread : ℕ) : List (Event α κ) :=
  (log.filter fun entry => entry.1 = thread).map Prod.snd

@[simp] theorem ofThread_nil (thread : ℕ) : ofThread ([] : List (ℕ × Event α κ)) thread = [] := rfl

@[simp] theorem ofThread_append (first second : List (ℕ × Event α κ)) (thread : ℕ) :
    ofThread (first ++ second) thread = ofThread first thread ++ ofThread second thread := by
  simp [ofThread]

@[simp] theorem ofThread_self (thread : ℕ) (event : Event α κ) :
    ofThread [(thread, event)] thread = [event] := by
  simp [ofThread]

theorem ofThread_of_ne {thread other : ℕ} (distinct : thread ≠ other) (event : Event α κ) :
    ofThread [(thread, event)] other = [] := by
  simp [ofThread, distinct]

theorem mem_ofThread {log : List (ℕ × Event α κ)} {thread : ℕ} {event : Event α κ} :
    event ∈ ofThread log thread ↔ (thread, event) ∈ log := by
  simp [ofThread]

/-- Every thread has made its last access. -/
def Finished (block : Block α κ) : Prop := ∀ thread, block.program thread = .done ()

/-- What the block can become by one access of a thread. -/
theorem step_cases {block next : Block α κ} {thread : ℕ} (stepped : step block thread = some next) :
    ∃ event rest, next.program = Function.update block.program thread rest ∧
      next.log = block.log ++ [(thread, event)] ∧
      (solo (block.program thread) block.memory).events =
        event :: (solo rest next.memory).events ∧
      (solo (block.program thread) block.memory).memory = (solo rest next.memory).memory ∧
      ∀ addr, (∀ value, event ≠ .store addr value) → next.memory addr = block.memory addr := by
  unfold step at stepped
  split at stepped
  · cases stepped
  · rename_i addr rest here
    cases stepped
    exact ⟨_, _, rfl, rfl, by rw [here]; rfl, by rw [here]; rfl, fun _ _ => rfl⟩
  · rename_i addr value rest here
    cases stepped
    refine ⟨_, _, rfl, rfl, by rw [here]; rfl, by rw [here]; rfl, fun cell other => ?_⟩
    have distinct : cell ≠ addr := by
      rintro rfl
      exact other value rfl
    exact Function.update_of_ne distinct _ _
  · rename_i sign rest here
    cases stepped
    exact ⟨_, _, rfl, rfl, by rw [here]; rfl, by rw [here]; rfl, fun _ _ => rfl⟩

/-- No thread stores to an address that another thread touches, each running alone. -/
def Independent (program : ℕ → Program α κ Unit) (memory : ℕ → α) : Prop :=
  ∀ thread other, thread ≠ other → ∀ addr value,
    Event.store addr value ∈ (solo (program thread) memory).events →
    ∀ event ∈ (solo (program other) memory).events, event.addr ≠ some addr

section Interleaving

variable {program : ℕ → Program α κ Unit} {memory : ℕ → α}

/-- Each thread is where it would be alone. -/
structure Alone (program : ℕ → Program α κ Unit) (memory : ℕ → α) (block : Block α κ) : Prop where
  events : ∀ thread, ofThread block.log thread ++
    (solo (block.program thread) block.memory).events = (solo (program thread) memory).events
  stored : ∀ thread addr value,
    Event.store addr value ∈ (solo (program thread) memory).events →
    (solo (block.program thread) block.memory).memory addr =
      (solo (program thread) memory).memory addr
  frame : ∀ addr, (∀ thread value,
    Event.store addr value ∉ (solo (program thread) memory).events) →
    block.memory addr = memory addr

theorem alone_start (program : ℕ → Program α κ Unit) (memory : ℕ → α) :
    Alone program memory (.start memory program) where
  events := fun _ => rfl
  stored := fun _ _ _ _ => rfl
  frame := fun _ _ => rfl

theorem Alone.step {block next : Block α κ} {thread : ℕ} (independent : Independent program memory)
    (alone : Alone program memory block) (stepped : step block thread = some next) :
    Alone program memory next := by
  obtain ⟨event, rest, programs, log, events, final, frame⟩ := step_cases stepped
  have made : event ∈ (solo (program thread) memory).events := by
    rw [← alone.events thread, events]
    simp
  -- another thread loads nothing that this access stored
  have other_same (other : ℕ) (distinct : other ≠ thread) :
      (solo (block.program other) next.memory).events =
          (solo (block.program other) block.memory).events ∧
        ∀ addr, next.memory addr = block.memory addr →
          (solo (block.program other) next.memory).memory addr =
            (solo (block.program other) block.memory).memory addr := by
    refine solo_congr _ fun addr value loads => frame addr fun stored same => ?_
    subst same
    refine independent thread other (Ne.symm distinct) addr stored made (.load addr value) ?_ rfl
    rw [← alone.events other]
    exact List.mem_append_right _ loads
  refine ⟨fun other => ?_, fun other addr value member => ?_, fun addr untouched => ?_⟩
  · by_cases same : other = thread
    · subst same
      rw [programs, log, Function.update_self, ofThread_append, ofThread_self, List.append_assoc,
        ← alone.events other, events]
      rfl
    · rw [programs, log, Function.update_of_ne same, ofThread_append,
        ofThread_of_ne (Ne.symm same), List.append_nil, (other_same other same).1, alone.events]
  · rw [← alone.stored other addr value member]
    by_cases same : other = thread
    · subst same
      rw [programs, Function.update_self, final]
    · rw [programs, Function.update_of_ne same]
      refine (other_same other same).2 addr (frame addr fun stored equal => ?_)
      subst equal
      exact independent thread other (Ne.symm same) addr stored made _ member rfl
  · rw [← alone.frame addr untouched]
    refine frame addr fun stored equal => ?_
    subst equal
    exact untouched thread stored made

/-- However the accesses of independent threads are interleaved, each thread makes exactly the
accesses it makes alone, each stored cell ends with the value its thread leaves there alone, and
all other cells keep their values. -/
theorem interleaving {schedule : List ℕ} {final : Block α κ}
    (independent : Independent program memory)
    (execution : StepSystem.exec step (.start memory program) schedule = some final)
    (finished : Finished final) :
    (∀ thread, ofThread final.log thread = (solo (program thread) memory).events) ∧
      (∀ thread addr value, Event.store addr value ∈ (solo (program thread) memory).events →
        final.memory addr = (solo (program thread) memory).memory addr) ∧
      ∀ addr, (∀ thread value, Event.store addr value ∉ (solo (program thread) memory).events) →
        final.memory addr = memory addr := by
  have alone : Alone program memory final :=
    StepSystem.Reachable.invariant (Alone program memory)
      (fun _ _ _ alone stepped => alone.step independent stepped)
      (alone_start program memory) ⟨schedule, execution⟩
  refine ⟨fun thread => ?_, fun thread addr value member => ?_, alone.frame⟩
  · rw [← alone.events thread, finished thread]
    simp [solo]
  · rw [← alone.stored thread addr value member, finished thread]
    rfl

end Interleaving

/-! ### Barriers -/

/-- What the threads of a block run from one barrier to the next. -/
abbrev Phases (α κ : Type) := List (ℕ → Program α κ Unit)

/-- A barrier of all threads. -/
def barrier : Phases α κ := [fun _ => pure (), fun _ => pure ()]

/-- One code after another; no barrier is between them but those they contain. -/
def Phases.andThen : Phases α κ → Phases α κ → Phases α κ
  | [], later => later
  | [last], [] => [last]
  | [last], next :: later => (fun thread => do last thread; next thread) :: later
  | first :: second :: rest, later => first :: Phases.andThen (second :: rest) later

/-- Several codes, one after another. -/
def Phases.inOrder (codes : List (Phases α κ)) : Phases α κ := codes.foldr Phases.andThen []

/-- The threads of a block run phase after phase, each in some interleaving: a barrier lets no
thread pass before all have reached it. -/
inductive RunsPhases : Phases α κ → (ℕ → α) → List (ℕ × Event α κ) → (ℕ → α) → Prop
  | nil (memory : ℕ → α) : RunsPhases [] memory [] memory
  | cons {phase : ℕ → Program α κ Unit} {phases : Phases α κ} {memory final : ℕ → α}
      {schedule : List ℕ} {block : Block α κ} {log : List (ℕ × Event α κ)}
      (execution : StepSystem.exec step (.start memory phase) schedule = some block)
      (finished : Finished block) (rest : RunsPhases phases block.memory log final) :
      RunsPhases (phase :: phases) memory (block.log ++ log) final

/-- All events of one kind come before all events of another. -/
def Precede (first second : Event α κ → Prop) (log : List (ℕ × Event α κ)) : Prop :=
  log.Pairwise fun earlier later => second earlier.2 → ¬ first later.2

/-- The values that signals of one kind carry, in order. -/
def published {δ : Type} (pick : κ → Option δ) (log : List (ℕ × Event α κ)) : List δ :=
  log.filterMap fun entry => entry.2.sign.bind pick

section Barriers

variable {first second : Event α κ → Prop} {δ : Type} {pick : κ → Option δ}

/-- A run of some phases and then others stops between them. -/
theorem RunsPhases.split {earlier later : Phases α κ} {memory final : ℕ → α}
    {log : List (ℕ × Event α κ)} (runs : RunsPhases (earlier ++ later) memory log final) :
    ∃ middle log₁ log₂, log = log₁ ++ log₂ ∧ RunsPhases earlier memory log₁ middle ∧
      RunsPhases later middle log₂ final := by
  induction earlier generalizing memory log with
  | nil => exact ⟨memory, [], log, rfl, .nil memory, runs⟩
  | cons phase earlier ih =>
      cases runs with
      | cons execution finished rest =>
          obtain ⟨middle, log₁, log₂, rfl, before, after⟩ := ih rest
          exact ⟨middle, _, log₂, (List.append_assoc _ _ _).symm,
            .cons execution finished before, after⟩

theorem precede_append {earlier later : List (ℕ × Event α κ)}
    (none_yet : ∀ entry ∈ earlier, ¬ second entry.2) (no_more : ∀ entry ∈ later, ¬ first entry.2) :
    Precede first second (earlier ++ later) := by
  refine List.pairwise_append.mpr ⟨?_, ?_, fun _ _ entry member _ => no_more entry member⟩
  · exact List.Pairwise.imp_of_mem (fun member _ _ given => absurd given (none_yet _ member))
      (List.pairwise_of_forall (R := fun _ _ => True) fun _ _ => trivial)
  · exact List.Pairwise.imp_of_mem (fun _ member _ _ => no_more _ member)
      (List.pairwise_of_forall (R := fun _ _ => True) fun _ _ => trivial)

@[simp] theorem published_append (earlier later : List (ℕ × Event α κ)) :
    published pick (earlier ++ later) = published pick earlier ++ published pick later :=
  List.filterMap_append

/-- Signals that one thread gives alone are published in its order. -/
theorem published_eq_ofThread {log : List (ℕ × Event α κ)} {thread : ℕ}
    (only : ∀ other, other ≠ thread →
      ((ofThread log other).filterMap Event.sign).filterMap pick = []) :
    published pick log = ((ofThread log thread).filterMap Event.sign).filterMap pick := by
  have silent (entry : ℕ × Event α κ) (member : entry ∈ log) (elsewhere : entry.1 ≠ thread) :
      entry.2.sign.bind pick = none := by
    have nothing := only entry.1 elsewhere
    rw [List.filterMap_filterMap, List.filterMap_eq_nil_iff] at nothing
    exact nothing entry.2 (mem_ofThread.mpr member)
  rw [List.filterMap_filterMap, published]
  clear only
  induction log with
  | nil => rfl
  | cons entry log ih =>
      have rest := ih fun later member => silent later (List.mem_cons_of_mem _ member)
      by_cases here : entry.1 = thread
      · simp only [List.filterMap_cons, ofThread, List.filter_cons, here, decide_true, if_true,
          List.map_cons, rest]
      · simp only [List.filterMap_cons, ofThread, List.filter_cons, here, decide_false,
          Bool.false_eq_true, if_false, silent entry List.mem_cons_self here, rest]

end Barriers

end Threads
