import NanoNccl.Failure
import NanoNccl.Lib.Mutex

/-!
# The error object of the RDMA transport

`RdmaAsyncErrorState` holds three locations: the abort word the kernels poll, the text of the
first failure and the error bit. Any number of threads report failures and any number of threads
ask for the bit and the text. A thread executes one load, store or mutex operation at a time, so a
list of labels is one interleaving of all calls.

A report formats its text under the mutex and publishes abort word and error bit in this order. A
report whose formatting throws publishes the same two locations outside the mutex.
-/

namespace NanoNccl
namespace Rdma
namespace AsyncError

open StepSystem

variable {ι : Type*}

/-- The text `message()` falls back to. -/
def detailsUnavailable : String := "rdma asynchronous failure (details unavailable)"

/-- The next operation of a thread. -/
inductive Pc where
  /-- Outside every call. -/
  | idle
  /-- `record_failure` takes the mutex. -/
  | recordLock (failure : Failure)
  /-- Under the mutex, the error bit is loaded. -/
  | recordCheck (failure : Failure)
  /-- Under the mutex, the text is formatted and moved into `message_`. -/
  | recordFormat (failure : Failure)
  /-- Under the mutex, the abort word is stored. -/
  | recordAbort
  /-- Under the mutex, the error bit is stored. -/
  | recordError
  /-- The lock guard of `record_failure` releases the mutex. -/
  | recordUnlock
  /-- The lock guard releases the mutex while an exception passes. -/
  | catchUnlock
  /-- The handler stores the abort word. -/
  | catchAbort
  /-- The handler stores the error bit. -/
  | catchError
  /-- `message()` takes the mutex. -/
  | messageLock
  /-- Under the mutex, the result of `message()` is built. -/
  | messageRead
  /-- The lock guard of `message()` releases the mutex and the call returns. -/
  | messageUnlock (text : String)
  deriving DecidableEq, Repr

/-- The thread is between taking and releasing the mutex. -/
def Pc.Holds : Pc → Prop
  | .recordCheck _ | .recordFormat _ | .recordAbort | .recordError | .recordUnlock
  | .catchUnlock | .messageRead | .messageUnlock _ => True
  | .idle | .recordLock _ | .catchAbort | .catchError | .messageLock => False

/-- The locations of the error object. -/
structure Locations where
  /-- The abort word; `none` for a null `device_abort_`. -/
  deviceAbort : Option UInt32
  /-- `has_error_` -/
  hasError : Bool
  /-- `message_` -/
  message : String
  /-- Every text moved into `message_`, oldest first. -/
  stored : List String

/-- Kernels that poll the abort word have been told to stop. -/
def Locations.Aborted (shared : Locations) : Prop :=
  shared.deviceAbort = none ∨ shared.deviceAbort = some 1

/-- Store 1 into the abort word, unless its pointer is null. -/
def Locations.storeAbort (shared : Locations) : Locations :=
  { shared with deviceAbort := shared.deviceAbort.map fun _ => 1 }

/-- Store the error bit. -/
def Locations.storeError (shared : Locations) : Locations :=
  { shared with hasError := true }

/-- Move a formatted text into `message_`. -/
def Locations.storeMessage (shared : Locations) (text : String) : Locations :=
  { shared with message := text, stored := shared.stored ++ [text] }

/-- The result `message()` builds under the mutex. -/
def Locations.text (shared : Locations) : String :=
  if shared.message = "" then detailsUnavailable else shared.message

/-- The error object, its threads and what they have seen. -/
abbrev State (ι : Type*) := Mutex.State ι Pc Locations (Observation ι)

/-- The object right after construction, with no thread inside a call. -/
def initial (deviceAbort : Option UInt32) : State ι where
  shared :=
    { deviceAbort := deviceAbort
      hasError := false
      message := ""
      stored := [] }
  mutex := none
  pc := fun _ => .idle
  log := []

/-- The scheduler's choice. -/
inductive Label (ι : Type*) where
  /-- A thread calls `record_failure`. -/
  | recordFailure (thread : ι) (failure : Failure)
  /-- A thread calls `has_error()`, a single load. -/
  | hasError (thread : ι)
  /-- A thread calls `message()`. -/
  | message (thread : ι)
  /-- A thread inside a call executes its next operation. -/
  | run (thread : ι)
  /-- The next operation of a thread throws. -/
  | throws (thread : ι)
  deriving DecidableEq, Repr

variable [DecidableEq ι]

/-- The next operation of a thread inside a call. -/
def runThread (state : State ι) (thread : ι) : Option (State ι) :=
  match state.pc thread with
  | .idle => none
  | .recordLock failure => state.acquire thread (.recordCheck failure)
  | .recordCheck failure =>
      some (state.goto thread
        (if state.shared.hasError then .recordUnlock else .recordFormat failure))
  | .recordFormat failure =>
      some (state.act thread (state.shared.storeMessage (formatFailure "rdma" failure))
        .recordAbort)
  | .recordAbort => some (state.act thread state.shared.storeAbort .recordError)
  | .recordError => some (state.act thread state.shared.storeError .recordUnlock)
  | .recordUnlock => some (state.release thread .idle)
  | .catchUnlock => some (state.release thread .catchAbort)
  | .catchAbort => some (state.act thread state.shared.storeAbort .catchError)
  | .catchError => some (state.act thread state.shared.storeError .idle)
  | .messageLock => state.acquire thread .messageRead
  | .messageRead => some (state.goto thread (.messageUnlock state.shared.text))
  | .messageUnlock text =>
      some ((state.release thread .idle).answer (.message thread text))

/-- An exception reaches the handler of `record_failure`: taking the mutex may throw, and so may
formatting the text, in which case the lock guard releases the mutex first. -/
def throwThread (state : State ι) (thread : ι) : Option (State ι) :=
  match state.pc thread with
  | .recordLock _ => some (state.goto thread .catchAbort)
  | .recordFormat _ => some (state.goto thread .catchUnlock)
  | _ => none

/-- One label. -/
def step (state : State ι) : Label ι → Option (State ι)
  | .recordFailure thread failure =>
      if state.pc thread = .idle then some (state.goto thread (.recordLock failure)) else none
  | .hasError thread =>
      if state.pc thread = .idle then
        some (state.answer (.hasError thread state.shared.hasError))
      else none
  | .message thread =>
      if state.pc thread = .idle then some (state.goto thread .messageLock) else none
  | .run thread => runThread state thread
  | .throws thread => throwThread state thread

/-- What holds of a thread between two of its operations. -/
def Pc.Facts (shared : Locations) : Pc → Prop
  | .recordFormat _ => shared.stored = []
  | .recordAbort => shared.stored ≠ []
  | .recordError => shared.stored ≠ [] ∧ shared.Aborted
  | .catchError => shared.Aborted
  | .messageUnlock text => text = shared.text
  | .idle | .recordLock _ | .recordCheck _ | .recordUnlock | .catchUnlock | .catchAbort
  | .messageLock | .messageRead => True

/-- The text of a failure is stored and its error bit follows. -/
def Pc.Publishing : Pc → Prop
  | .recordAbort | .recordError => True
  | _ => False

/-- What holds of the shared locations between any two operations. -/
structure Locations.Consistent (shared : Locations) : Prop where
  /-- Whoever sees the error bit finds the abort word stored. -/
  abort : shared.hasError = true → shared.Aborted
  /-- At most one text is ever stored, and it is the current one. -/
  once : shared.stored = [] ∧ shared.message = "" ∨
    shared.message ≠ "" ∧ shared.stored = [shared.message]

/-- The publication invariant. -/
structure Invariant (state : State ι) : Prop where
  /-- Critical sections exclude each other. -/
  owner : Mutex.Exclusive Pc.Holds state
  /-- Local facts of every thread. -/
  facts : ∀ thread, (state.pc thread).Facts state.shared
  /-- The shared locations. -/
  consistent : state.shared.Consistent
  /-- A stored text without the error bit has its reporter still under the mutex. -/
  pending : state.shared.stored ≠ [] → state.shared.hasError = true ∨
    ∃ thread, (state.pc thread).Publishing
  /-- Answers already given. -/
  seen : ∀ observer, Observation.hasError observer true ∈ state.log →
    state.shared.hasError = true

omit [DecidableEq ι] in
theorem invariant_initial (deviceAbort : Option UInt32) :
    Invariant (initial deviceAbort : State ι) := by
  constructor <;> simp [initial, Pc.Holds, Pc.Facts, Mutex.Exclusive]
  constructor <;> simp

omit [DecidableEq ι] in
/-- Under the mutex, a stored text without the error bit is the thread's own. -/
theorem Invariant.publishing_of_holds {state : State ι} (inv : Invariant state) {thread : ι}
    (holds : (state.pc thread).Holds) (quiet : state.shared.hasError = false)
    (stored : state.shared.stored ≠ []) : (state.pc thread).Publishing := by
  rcases inv.pending stored with error | ⟨other, publishing⟩
  · simp [quiet] at error
  · by_cases same : other = thread
    · exact same ▸ publishing
    · have outside : ¬(state.pc other).Holds := inv.owner.alone holds same
      cases at_pc : state.pc other <;> simp_all [Pc.Publishing, Pc.Holds]

/-- An operation that leaves the mutex alone. -/
theorem Invariant.act {state : State ι} (inv : Invariant state) {thread : ι} {shared : Locations}
    {pc : Pc} (holding : pc.Holds ↔ (state.pc thread).Holds) (own : pc.Facts shared)
    (others : ∀ other, other ≠ thread → (state.pc other).Facts shared)
    (consistent : shared.Consistent)
    (pending : shared.stored ≠ [] → shared.hasError = true ∨ pc.Publishing ∨
      (shared.stored = state.shared.stored ∧ ¬(state.pc thread).Publishing))
    (error : state.shared.hasError = true → shared.hasError = true) :
    Invariant (state.act thread shared pc) where
  owner := inv.owner.act holding
  facts := Mutex.forall_update own others
  consistent := consistent
  pending := by
    intro stored
    rcases pending stored with published | publishing | ⟨kept, elsewhere⟩
    · exact .inl published
    · exact .inr ⟨thread, by simpa using publishing⟩
    · have before : state.shared.stored ≠ [] := kept ▸ stored
      exact (inv.pending before).imp error fun publishing =>
        Mutex.exists_update publishing elsewhere
  seen := fun observer answered => error (inv.seen observer answered)

/-- A thread that touches no shared location. -/
theorem Invariant.goto {state : State ι} (inv : Invariant state) {thread : ι} {pc : Pc}
    (holding : pc.Holds ↔ (state.pc thread).Holds) (own : pc.Facts state.shared)
    (quiet : ¬(state.pc thread).Publishing) : Invariant (state.goto thread pc) :=
  inv.act holding own (fun other _ => inv.facts other) inv.consistent
    (fun _ => .inr (.inr ⟨rfl, quiet⟩)) id

/-- A thread takes the free mutex. -/
theorem Invariant.acquire {state next : State ι} (inv : Invariant state) {thread : ι} {pc : Pc}
    (taken : state.acquire thread pc = some next) (holding : pc.Holds)
    (own : pc.Facts state.shared) (quiet : ¬(state.pc thread).Publishing) : Invariant next := by
  have owner := inv.owner.acquire holding taken
  obtain ⟨-, rfl⟩ := (state.acquire_eq_some thread pc).mp taken
  exact
    { owner := owner
      facts := Mutex.forall_update own fun other _ => inv.facts other
      consistent := inv.consistent
      pending := fun stored =>
        (inv.pending stored).imp id fun publishing => Mutex.exists_update publishing quiet
      seen := inv.seen }

/-- A thread releases the mutex it holds. -/
theorem Invariant.release {state : State ι} (inv : Invariant state) {thread : ι} {pc : Pc}
    (held : (state.pc thread).Holds) (outside : ¬pc.Holds) (own : pc.Facts state.shared)
    (quiet : ¬(state.pc thread).Publishing) : Invariant (state.release thread pc) where
  owner := inv.owner.release held outside
  facts := Mutex.forall_update own fun other _ => inv.facts other
  consistent := inv.consistent
  pending := fun stored =>
    (inv.pending stored).imp id fun publishing => Mutex.exists_update publishing quiet
  seen := inv.seen

omit [DecidableEq ι] in
/-- An answer other than a wrong `has_error()`. -/
theorem Invariant.answer {state : State ι} (inv : Invariant state) {event : Observation ι}
    (honest : ∀ observer, event = .hasError observer true → state.shared.hasError = true) :
    Invariant (state.answer event) where
  owner := inv.owner
  facts := inv.facts
  consistent := inv.consistent
  pending := inv.pending
  seen := by
    intro observer answered
    rcases List.mem_append.mp answered with earlier | new
    · exact inv.seen observer earlier
    · exact honest observer (List.mem_singleton.mp new).symm

theorem aborted_storeAbort (shared : Locations) : shared.storeAbort.Aborted := by
  cases word : shared.deviceAbort <;> simp [Locations.Aborted, Locations.storeAbort, word]

theorem Locations.Consistent.storeAbort {shared : Locations} (consistent : shared.Consistent) :
    shared.storeAbort.Consistent where
  abort := fun _ => aborted_storeAbort shared
  once := consistent.once

theorem Locations.Consistent.storeError {shared : Locations} (consistent : shared.Consistent)
    (aborted : shared.Aborted) : shared.storeError.Consistent where
  abort := fun _ => aborted
  once := consistent.once

theorem Locations.Consistent.storeMessage {shared : Locations} (consistent : shared.Consistent)
    (first : shared.stored = []) {text : String} (nonempty : text ≠ "") :
    (shared.storeMessage text).Consistent where
  abort := consistent.abort
  once := .inr ⟨nonempty, by simp [Locations.storeMessage, first]⟩

theorem Pc.Facts.storeAbort {shared : Locations} {pc : Pc} (facts : pc.Facts shared) :
    pc.Facts shared.storeAbort := by
  cases pc with
  | recordError => exact ⟨facts.1, aborted_storeAbort shared⟩
  | catchError => exact aborted_storeAbort shared
  | _ => exact facts

theorem Pc.Facts.storeError {shared : Locations} {pc : Pc} (facts : pc.Facts shared) :
    pc.Facts shared.storeError := by
  cases pc <;> exact facts

theorem Pc.Facts.storeMessage {shared : Locations} {pc : Pc} (facts : pc.Facts shared)
    (outside : ¬pc.Holds) (text : String) : pc.Facts (shared.storeMessage text) := by
  cases pc <;> simp_all [Pc.Facts, Pc.Holds, Locations.storeMessage, Locations.Aborted]

theorem Locations.text_ne_empty (shared : Locations) : shared.text ≠ "" := by
  unfold Locations.text
  split_ifs with empty
  · decide
  · exact empty

/-- Every operation of a thread inside a call keeps the invariant. -/
theorem runThread_invariant {state next : State ι} {thread : ι} (inv : Invariant state)
    (taken : runThread state thread = some next) : Invariant next := by
  have own := inv.facts thread
  unfold runThread at taken
  cases at_pc : state.pc thread with
  | idle => simp [at_pc] at taken
  | recordLock failure =>
      simp only [at_pc] at taken
      exact inv.acquire taken trivial trivial (by simp [at_pc, Pc.Publishing])
  | recordCheck failure =>
      simp only [at_pc, Option.some.injEq] at taken
      subst taken
      have holds : (state.pc thread).Holds := by simp [at_pc, Pc.Holds]
      by_cases error : state.shared.hasError = true
      · rw [if_pos error]
        exact inv.goto (by simp [at_pc, Pc.Holds]) trivial (by simp [at_pc, Pc.Publishing])
      · rw [if_neg error]
        refine inv.goto (by simp [at_pc, Pc.Holds]) ?_ (by simp [at_pc, Pc.Publishing])
        -- A text stored earlier would have raised the error bit before its mutex was released.
        by_contra stored
        have publishing := inv.publishing_of_holds holds (by simpa using error) stored
        simp [at_pc, Pc.Publishing] at publishing
  | recordFormat failure =>
      simp only [at_pc, Option.some.injEq] at taken
      subst taken
      rw [at_pc] at own
      have holds : (state.pc thread).Holds := by simp [at_pc, Pc.Holds]
      refine inv.act (by simp [at_pc, Pc.Holds]) (by simp [Pc.Facts, Locations.storeMessage])
        (fun other distinct => (inv.facts other).storeMessage (inv.owner.alone holds distinct) _)
        (inv.consistent.storeMessage own (formatFailure_ne_empty _ _))
        (fun _ => .inr (.inl trivial)) id
  | recordAbort =>
      simp only [at_pc, Option.some.injEq] at taken
      subst taken
      rw [at_pc] at own
      exact inv.act (by simp [at_pc, Pc.Holds]) ⟨own, aborted_storeAbort _⟩
        (fun other _ => (inv.facts other).storeAbort) inv.consistent.storeAbort
        (fun _ => .inr (.inl trivial)) id
  | recordError =>
      simp only [at_pc, Option.some.injEq] at taken
      subst taken
      rw [at_pc] at own
      exact inv.act (by simp [at_pc, Pc.Holds]) trivial
        (fun other _ => (inv.facts other).storeError) (inv.consistent.storeError own.2)
        (fun _ => .inl rfl) fun _ => rfl
  | recordUnlock =>
      simp only [at_pc, Option.some.injEq] at taken
      subst taken
      exact inv.release (by simp [at_pc, Pc.Holds]) id trivial (by simp [at_pc, Pc.Publishing])
  | catchUnlock =>
      simp only [at_pc, Option.some.injEq] at taken
      subst taken
      exact inv.release (by simp [at_pc, Pc.Holds]) id trivial (by simp [at_pc, Pc.Publishing])
  | catchAbort =>
      simp only [at_pc, Option.some.injEq] at taken
      subst taken
      exact inv.act (by simp [at_pc, Pc.Holds]) (aborted_storeAbort _)
        (fun other _ => (inv.facts other).storeAbort) inv.consistent.storeAbort
        (fun _ => .inr (.inr ⟨rfl, by simp [at_pc, Pc.Publishing]⟩)) id
  | catchError =>
      simp only [at_pc, Option.some.injEq] at taken
      subst taken
      rw [at_pc] at own
      exact inv.act (by simp [at_pc, Pc.Holds]) trivial
        (fun other _ => (inv.facts other).storeError) (inv.consistent.storeError own)
        (fun _ => .inl rfl) fun _ => rfl
  | messageLock =>
      simp only [at_pc] at taken
      exact inv.acquire taken trivial trivial (by simp [at_pc, Pc.Publishing])
  | messageRead =>
      simp only [at_pc, Option.some.injEq] at taken
      subst taken
      exact inv.goto (by simp [at_pc, Pc.Holds]) rfl (by simp [at_pc, Pc.Publishing])
  | messageUnlock text =>
      simp only [at_pc, Option.some.injEq] at taken
      subst taken
      have released : Invariant (state.release thread .idle) :=
        inv.release (by simp [at_pc, Pc.Holds]) id trivial (by simp [at_pc, Pc.Publishing])
      exact released.answer (by simp)

/-- The invariant is kept by every label. -/
theorem step_invariant {state next : State ι} {label : Label ι} (inv : Invariant state)
    (taken : step state label = some next) : Invariant next := by
  cases label with
  | recordFailure thread failure =>
      simp only [step, Option.ite_none_right_eq_some, Option.some.injEq] at taken
      obtain ⟨idle, rfl⟩ := taken
      exact inv.goto (by simp [idle, Pc.Holds]) trivial (by simp [idle, Pc.Publishing])
  | hasError thread =>
      simp only [step, Option.ite_none_right_eq_some, Option.some.injEq] at taken
      obtain ⟨-, rfl⟩ := taken
      exact inv.answer fun observer given => (Observation.hasError.inj given).2
  | message thread =>
      simp only [step, Option.ite_none_right_eq_some, Option.some.injEq] at taken
      obtain ⟨idle, rfl⟩ := taken
      exact inv.goto (by simp [idle, Pc.Holds]) trivial (by simp [idle, Pc.Publishing])
  | run thread => exact runThread_invariant inv taken
  | throws thread =>
      simp only [step, throwThread] at taken
      cases at_pc : state.pc thread <;> simp only [at_pc, reduceCtorEq, Option.some.injEq] at taken
      case recordLock failure =>
        subst taken
        exact inv.goto (by simp [at_pc, Pc.Holds]) trivial (by simp [at_pc, Pc.Publishing])
      case recordFormat failure =>
        subst taken
        exact inv.goto (by simp [at_pc, Pc.Holds]) trivial (by simp [at_pc, Pc.Publishing])

/-- What one operation does to the shared locations. -/
inductive Locations.Effect (shared : Locations) : Locations → Prop where
  /-- Nothing is written. -/
  | keep : Effect shared shared
  /-- The abort word is stored. -/
  | abort : Effect shared shared.storeAbort
  /-- The error bit is stored. -/
  | error : Effect shared shared.storeError
  /-- The first text is stored. -/
  | message (first : shared.stored = []) (text : String) : Effect shared (shared.storeMessage text)

/-- A step writes one location, adds at most one answer, and returns the text of the state it
starts from. -/
theorem step_effect {state next : State ι} {label : Label ι} (inv : Invariant state)
    (taken : step state label = some next) :
    state.shared.Effect next.shared ∧ ∃ new, next.log = state.log ++ new ∧
      ∀ event ∈ new, ∀ reader text, event = Observation.message reader text →
        text = state.shared.text := by
  cases label with
  | recordFailure thread failure | message thread =>
      simp only [step, Option.ite_none_right_eq_some, Option.some.injEq] at taken
      obtain ⟨-, rfl⟩ := taken
      exact ⟨.keep, [], by simp⟩
  | hasError thread =>
      simp only [step, Option.ite_none_right_eq_some, Option.some.injEq] at taken
      obtain ⟨-, rfl⟩ := taken
      exact ⟨.keep, [.hasError thread state.shared.hasError], by simp⟩
  | throws thread =>
      simp only [step, throwThread] at taken
      cases at_pc : state.pc thread <;> simp only [at_pc, reduceCtorEq, Option.some.injEq] at taken
      all_goals exact taken ▸ ⟨.keep, [], by simp⟩
  | run thread =>
      have own := inv.facts thread
      simp only [step, runThread] at taken
      cases at_pc : state.pc thread <;>
        simp only [at_pc, Mutex.State.acquire_eq_some, reduceCtorEq, Option.some.injEq] at taken
      case recordLock failure | messageLock =>
        obtain ⟨-, rfl⟩ := taken
        exact ⟨.keep, [], by simp⟩
      case recordCheck failure | recordUnlock | catchUnlock | messageRead =>
        exact taken ▸ ⟨.keep, [], by simp⟩
      case recordFormat failure =>
        rw [at_pc] at own
        exact taken ▸ ⟨.message own _, [], by simp⟩
      case recordAbort | catchAbort => exact taken ▸ ⟨.abort, [], by simp⟩
      case recordError | catchError => exact taken ▸ ⟨.error, [], by simp⟩
      case messageUnlock text =>
        rw [at_pc] at own
        subst taken
        refine ⟨.keep, [.message thread text], by simp, ?_⟩
        intro event new reader returned given
        obtain ⟨-, rfl⟩ : thread = reader ∧ text = returned := by simp_all
        exact own

/-- The first text is stored and the error bit is up. -/
def Settled (text : String) (shared : Locations) : Prop :=
  shared.hasError = true ∧ shared.message = text ∧ shared.stored = [text]

/-- Once a text is settled, no operation replaces it: formatting needs an empty history. -/
theorem Settled.effect {text : String} {shared after : Locations} (settled : Settled text shared)
    (effect : shared.Effect after) : Settled text after := by
  cases effect with
  | keep => exact settled
  | abort => exact settled
  | error => exact ⟨rfl, settled.2⟩
  | message first other => simp [settled.2.2] at first

/-- A settled text is the one `message()` builds. -/
theorem Settled.text_eq {text : String} {shared : Locations} (settled : Settled text shared)
    (consistent : shared.Consistent) : shared.text = text := by
  rcases consistent.once with ⟨empty, -⟩ | ⟨nonempty, -⟩
  · simp [settled.2.2] at empty
  · rw [Locations.text, if_neg nonempty, settled.2.1]

/-- From a settled text on, every run returns it. -/
theorem run_settled {state final : State ι} {labels : List (Label ι)} {text : String}
    (inv : Invariant state) (settled : Settled text state.shared)
    (execution : exec step state labels = some final) :
    Settled text final.shared ∧ ∃ later, final.log = state.log ++ later ∧
      ∀ event ∈ later, ∀ reader returned, event = Observation.message reader returned →
        returned = text := by
  obtain ⟨⟨-, last⟩, grown⟩ := exec_appends Mutex.State.log
    (fun state : State ι => Invariant state ∧ Settled text state.shared)
    (fun _ _ _ both taken =>
      ⟨step_invariant both.1 taken, both.2.effect (step_effect both.1 taken).1⟩)
    (fun state _ _ both taken => by
      obtain ⟨-, new, grown, built⟩ := step_effect both.1 taken
      rw [both.2.text_eq both.1.consistent] at built
      exact ⟨new, grown, built⟩)
    ⟨inv, settled⟩ execution
  exact ⟨last, grown⟩

/-- Answers are only added, and no returned text is empty. -/
theorem run_log {state final : State ι} {labels : List (Label ι)} (inv : Invariant state)
    (execution : exec step state labels = some final) :
    ∃ later, final.log = state.log ++ later ∧
      ∀ event ∈ later, ∀ reader text, event = Observation.message reader text → text ≠ "" := by
  refine (exec_appends Mutex.State.log Invariant (fun _ _ _ => step_invariant) ?_ inv execution).2
  intro state label next inv taken
  obtain ⟨-, new, grown, built⟩ := step_effect inv taken
  refine ⟨new, grown, ?_⟩
  intro event member reader text given
  rw [built event member reader text given]
  exact state.shared.text_ne_empty

/-- Every state of a run from construction has the invariant. -/
theorem reachable_invariant {deviceAbort : Option UInt32} {state : State ι}
    (reach : Reachable step (initial deviceAbort) state) : Invariant state :=
  Reachable.invariant Invariant (fun _ _ _ inv taken => step_invariant inv taken)
    (invariant_initial deviceAbort) reach

/-- In every run of any number of reporting and observing threads: once some thread has seen the
error bit, the abort word is stored and every text returned later is not empty; and once a
formatted text is stored with the error bit up, `message()` returns the first stored text in every
continuation. -/
theorem record_failure_publishes {deviceAbort : Option UInt32} {state : State ι}
    (reach : Reachable step (initial deviceAbort) state) :
    (∀ observer, Observation.hasError observer true ∈ state.log →
      (state.shared.deviceAbort = none ∨ state.shared.deviceAbort = some 1) ∧
      ∀ labels final, exec step state labels = some final →
        ∃ later, final.log = state.log ++ later ∧
          ∀ reader text, Observation.message reader text ∈ later → text ≠ "") ∧
    (∀ text, state.shared.stored.head? = some text → state.shared.hasError = true →
      ∀ labels final, exec step state labels = some final →
        final.shared.hasError = true ∧ final.shared.message = text ∧
        ∃ later, final.log = state.log ++ later ∧
          ∀ reader returned, Observation.message reader returned ∈ later → returned = text) := by
  have inv := reachable_invariant reach
  constructor
  · intro observer answered
    refine ⟨inv.consistent.abort (inv.seen observer answered), ?_⟩
    intro labels final execution
    obtain ⟨later, grown, nonempty⟩ := run_log inv execution
    exact ⟨later, grown, fun reader text given => nonempty _ given reader text rfl⟩
  · intro text oldest error labels final execution
    have settled : Settled text state.shared := by
      rcases inv.consistent.once with ⟨empty, -⟩ | ⟨-, one⟩
      · simp [empty] at oldest
      · obtain rfl : state.shared.message = text := by simpa [one] using oldest
        exact ⟨error, rfl, one⟩
    obtain ⟨last, later, grown, returns⟩ := run_settled inv settled execution
    refine ⟨last.1, last.2.1, later, grown, ?_⟩
    exact fun reader returned given => returns _ given reader returned rfl

/-- Thread 0 stores its text; thread 1, whose formatting of the same report threw before, raises
the error bit from its handler; thread 2 sees the bit. -/
def crossingReports : List (Label (Fin 3)) :=
  [.recordFailure 1 lostConnection, .run 1, .run 1, .throws 1, .run 1,
    .recordFailure 0 lostConnection, .run 0, .run 0, .run 0, .run 1, .run 1, .hasError 2]

theorem record_failure_publishes_crossing :
    ∃ state : State (Fin 3), Reachable step (initial (some 0)) state ∧
      Observation.hasError 2 true ∈ state.log ∧
      (state.shared.deviceAbort = none ∨ state.shared.deviceAbort = some 1) ∧
      ∀ labels final, exec step state labels = some final →
        final.shared.message = formatFailure "rdma" lostConnection := by
  obtain ⟨state, execution, seen⟩ := Option.map_eq_some_iff.mp
    (show (exec step (initial (some 0)) crossingReports).map
        (fun state => (state.log, state.shared.stored, state.shared.hasError)) =
      some ([.hasError 2 true], [formatFailure "rdma" lostConnection], true) from rfl)
  obtain ⟨log, stored, error⟩ := by simpa using seen
  have reach : Reachable step (initial (some 0)) state := ⟨crossingReports, execution⟩
  have published := record_failure_publishes reach
  refine ⟨state, reach, by simp [log], (published.1 2 (by simp [log])).1, ?_⟩
  intro labels final later
  exact (published.2 _ (by simp [stored]) error labels final later).2.1

end AsyncError
end Rdma
end NanoNccl
