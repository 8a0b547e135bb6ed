import Mathlib.Algebra.GroupWithZero.Nat
import Mathlib.Data.Fintype.Basic
import NanoNccl.Failure
import NanoNccl.Lib.Mutex

/-!
# The error object of the socket transport

`SocketAsyncErrorState` elects its first reporter by a compare-exchange on the error bit. The
elected reporter formats the text under the mutex and stores the abort word afterwards, so a thread
that loads the error bit in between finds neither. A run whose observers never load the bit in that
window sees a complete and stable publication.

Reporting is `noexcept`: an exception while formatting ends the process, and with it the run.
-/

namespace NanoNccl
namespace Socket
namespace AsyncError

open StepSystem

variable {ι : Type*}

/-- The next operation of a thread. -/
inductive Pc where
  /-- Outside every call. -/
  | idle
  /-- `record_failure` tries to raise the error bit. -/
  | recordElect (failure : Failure)
  /-- The elected reporter takes the mutex. -/
  | recordLock (failure : Failure)
  /-- Under the mutex, the text is formatted and moved into `message_`. -/
  | recordFormat (failure : Failure)
  /-- The lock guard of the reporter releases the mutex. -/
  | recordUnlock
  /-- The reporter stores the abort word. -/
  | recordAbort
  /-- `message()` takes the mutex. -/
  | messageLock
  /-- Under the mutex, the text is copied. -/
  | messageRead
  /-- The lock guard of `message()` releases the mutex and the call returns. -/
  | messageUnlock (text : String)
  deriving DecidableEq, Repr

/-- The thread is between taking and releasing the mutex. -/
def Pc.Holds : Pc → Prop
  | .recordFormat _ | .recordUnlock | .messageRead | .messageUnlock _ => True
  | .idle | .recordElect _ | .recordLock _ | .recordAbort | .messageLock => False

/-- The locations of the error object. -/
structure Locations where
  /-- The abort word; `none` for a null `device_abort_`. -/
  deviceAbort : Option UInt32
  /-- `has_error_` -/
  hasError : Bool
  /-- `message_` -/
  message : String
  /-- The failure whose report won the election. -/
  first : Option Failure

/-- Kernels that poll the abort word have been told to stop. -/
def Locations.Aborted (shared : Locations) : Prop :=
  shared.deviceAbort = none ∨ shared.deviceAbort = some 1

/-- The successful compare-exchange of a reporter. -/
def Locations.elect (shared : Locations) (failure : Failure) : Locations :=
  { shared with hasError := true, first := some failure }

/-- Move a formatted text into `message_`. -/
def Locations.storeMessage (shared : Locations) (text : String) : Locations :=
  { shared with message := text }

/-- Store 1 into the abort word, unless its pointer is null. -/
def Locations.storeAbort (shared : Locations) : Locations :=
  { shared with deviceAbort := shared.deviceAbort.map fun _ => 1 }

/-- The error object, its threads and what they have seen. -/
abbrev State (ι : Type*) := Mutex.State ι Pc Locations (Observation ι)

/-- The object right after construction, with no thread inside a call. -/
def initial (deviceAbort : Option UInt32) : State ι where
  shared :=
    { deviceAbort := deviceAbort
      hasError := false
      message := ""
      first := none }
  mutex := none
  pc := fun _ => .idle
  log := []

/-- The scheduler's choice. -/
inductive Label (ι : Type*) where
  /-- A thread calls `record_failure`. -/
  | recordFailure (thread : ι) (failure : Failure)
  /-- A thread calls `has_error()`, a single load. -/
  | hasError (thread : ι)
  /-- A thread calls `message()`. -/
  | message (thread : ι)
  /-- A thread inside a call executes its next operation. -/
  | run (thread : ι)
  deriving DecidableEq, Repr

variable [DecidableEq ι]

/-- The next operation of a thread inside a call. -/
def runThread (state : State ι) (thread : ι) : Option (State ι) :=
  match state.pc thread with
  | .idle => none
  | .recordElect failure =>
      if state.shared.hasError then some (state.goto thread .idle)
      else some (state.act thread (state.shared.elect failure) (.recordLock failure))
  | .recordLock failure => state.acquire thread (.recordFormat failure)
  | .recordFormat failure =>
      some (state.act thread (state.shared.storeMessage (formatFailure "socket" failure))
        .recordUnlock)
  | .recordUnlock => some (state.release thread .recordAbort)
  | .recordAbort => some (state.act thread state.shared.storeAbort .idle)
  | .messageLock => state.acquire thread .messageRead
  | .messageRead => some (state.goto thread (.messageUnlock state.shared.message))
  | .messageUnlock text =>
      some ((state.release thread .idle).answer (.message thread text))

/-- One label. -/
def step (state : State ι) : Label ι → Option (State ι)
  | .recordFailure thread failure =>
      if state.pc thread = .idle then some (state.goto thread (.recordElect failure)) else none
  | .hasError thread =>
      if state.pc thread = .idle then
        some (state.answer (.hasError thread state.shared.hasError))
      else none
  | .message thread =>
      if state.pc thread = .idle then some (state.goto thread .messageLock) else none
  | .run thread => runThread state thread

/-- What an observer of the error bit may rely on: the abort word is stored, and every text
returned in any continuation is the non-empty line of the first recorded failure. -/
def Published (state : State ι) : Prop :=
  ∀ observer, Observation.hasError observer true ∈ state.log →
    (state.shared.deviceAbort = none ∨ state.shared.deviceAbort = some 1) ∧
    ∃ failure, state.shared.first = some failure ∧
      ∀ labels final, exec step state labels = some final →
        ∃ later, final.log = state.log ++ later ∧
          ∀ reader text, Observation.message reader text ∈ later →
            text = formatFailure "socket" failure ∧ text ≠ ""

/-- The window in which a load of the error bit exposes an unfinished report: the elected reporter
has not taken the mutex, or it has an abort word still to store. -/
def Pc.Exposed (deviceAbort : Option UInt32) : Pc → Prop
  | .recordLock _ => True
  | .recordFormat _ | .recordUnlock | .recordAbort => deviceAbort ≠ none
  | .idle | .recordElect _ | .messageLock | .messageRead | .messageUnlock _ => False

instance (deviceAbort : Option UInt32) (pc : Pc) : Decidable (pc.Exposed deviceAbort) :=
  match pc with
  | .recordLock _ => .isTrue trivial
  | .recordFormat _ | .recordUnlock | .recordAbort => inferInstanceAs (Decidable (_ ≠ _))
  | .idle | .recordElect _ | .messageLock | .messageRead | .messageUnlock _ => .isFalse id

/-- No observer loads the error bit inside the window. -/
def OutsideWindow (state : State ι) : Label ι → Prop
  | .hasError _ => ∀ thread, ¬(state.pc thread).Exposed state.shared.deviceAbort
  | .recordFailure _ _ | .message _ | .run _ => True

instance [Fintype ι] (state : State ι) (label : Label ι) : Decidable (OutsideWindow state label) :=
  match label with
  | .hasError _ =>
      inferInstanceAs (Decidable (∀ thread, ¬(state.pc thread).Exposed state.shared.deviceAbort))
  | .recordFailure _ _ | .message _ | .run _ => .isTrue trivial

/-- Thread 0 wins the election and is delayed; thread 1 then does what `check_async_error` does. -/
def earlyCheck (n : ℕ) [NeZero n] : List (Label (Fin n)) :=
  [.recordFailure 0 lostConnection, .run 0, .hasError 1, .message 1, .run 1, .run 1, .run 1]

/-- An observer between election and publication gets an empty text and an unset abort word. -/
theorem record_failure_exposed :
    ∃ state : State (Fin 2), Reachable step (initial (some 0)) state ∧
      state.log = [.hasError 1 true, .message 1 ""] ∧ state.shared.deviceAbort = some 0 ∧
      ¬Published state := by
  obtain ⟨state, execution, seen⟩ := Option.map_eq_some_iff.mp
    (show (exec step (initial (some 0)) (earlyCheck 2)).map
        (fun state => (state.log, state.shared.deviceAbort)) =
      some ([.hasError 1 true, .message 1 ""], some 0) from rfl)
  obtain ⟨log, word⟩ := by simpa using seen
  refine ⟨state, ⟨earlyCheck 2, execution⟩, log, word, ?_⟩
  intro published
  have stored := (published 1 (by simp [log])).1
  simp [word] at stored

/-- The elected reporter has not finished its report. -/
def Pc.Reporting : Pc → Prop
  | .recordLock _ | .recordFormat _ | .recordUnlock | .recordAbort => True
  | .idle | .recordElect _ | .messageLock | .messageRead | .messageUnlock _ => False

/-- The elected reporter has yet to store its text. -/
def Pc.Unwritten : Pc → Prop
  | .recordLock _ | .recordFormat _ => True
  | .idle | .recordElect _ | .recordUnlock | .recordAbort | .messageLock | .messageRead
  | .messageUnlock _ => False

/-- The elected reporter waits for the mutex. -/
def Pc.Waiting : Pc → Prop
  | .recordLock _ => True
  | .idle | .recordElect _ | .recordFormat _ | .recordUnlock | .recordAbort | .messageLock
  | .messageRead | .messageUnlock _ => False

/-- The text of the first recorded failure is in place. -/
def Locations.Written (shared : Locations) : Prop :=
  ∃ failure, shared.first = some failure ∧ shared.message = formatFailure "socket" failure

/-- What holds of a thread between two of its operations. -/
def Pc.Facts (shared : Locations) : Pc → Prop
  | .recordLock failure | .recordFormat failure =>
      shared.hasError = true ∧ shared.first = some failure
  | .recordUnlock | .recordAbort => shared.hasError = true ∧ shared.Written
  | .messageUnlock text => text = shared.message
  | .idle | .recordElect _ | .messageLock | .messageRead => True

/-- The publication invariant of all runs, disciplined or not. -/
structure Invariant (state : State ι) : Prop where
  /-- Critical sections exclude each other. -/
  owner : Mutex.Exclusive Pc.Holds state
  /-- Local facts of every thread. -/
  facts : ∀ thread, (state.pc thread).Facts state.shared
  /-- Behind the error bit, the text is stored or its reporter is on the way to it. -/
  written : state.shared.hasError = true →
    (∃ thread, (state.pc thread).Unwritten) ∨ state.shared.Written
  /-- Behind the error bit, the abort word is stored or its reporter is on the way to it. -/
  aborted : state.shared.hasError = true →
    (∃ thread, (state.pc thread).Reporting) ∨ state.shared.Aborted

omit [DecidableEq ι] in
theorem invariant_initial (deviceAbort : Option UInt32) :
    Invariant (initial deviceAbort : State ι) := by
  constructor <;> simp [initial, Pc.Holds, Pc.Facts, Mutex.Exclusive]

theorem aborted_storeAbort (shared : Locations) : shared.storeAbort.Aborted := by
  cases word : shared.deviceAbort <;> simp [Locations.Aborted, Locations.storeAbort, word]

theorem Pc.Facts.elect {shared : Locations} {pc : Pc} (facts : pc.Facts shared)
    (quiet : shared.hasError = false) (failure : Failure) : pc.Facts (shared.elect failure) := by
  cases pc <;> simp_all [Pc.Facts, Locations.elect]

theorem Pc.Facts.storeMessage {shared : Locations} {pc : Pc} {failure : Failure}
    (facts : pc.Facts shared) (outside : ¬pc.Holds) (first : shared.first = some failure) :
    pc.Facts (shared.storeMessage (formatFailure "socket" failure)) := by
  cases pc <;> simp_all [Pc.Facts, Pc.Holds, Locations.storeMessage, Locations.Written]

theorem Pc.Facts.storeAbort {shared : Locations} {pc : Pc} (facts : pc.Facts shared) :
    pc.Facts shared.storeAbort := by
  cases pc <;> exact facts

/-- A thread that neither reports nor touches a shared location. -/
theorem Invariant.goto {state : State ι} (inv : Invariant state) {thread : ι} {pc : Pc}
    (holding : pc.Holds ↔ (state.pc thread).Holds) (own : pc.Facts state.shared)
    (quiet : ¬(state.pc thread).Reporting) : Invariant (state.goto thread pc) where
  owner := inv.owner.act holding
  facts := Mutex.forall_update own fun other _ => inv.facts other
  written := fun error => (inv.written error).imp_left fun unwritten =>
    Mutex.exists_update unwritten
      (by cases at_pc : state.pc thread <;> simp_all [Pc.Reporting, Pc.Unwritten])
  aborted := fun error => (inv.aborted error).imp_left fun reporting =>
    Mutex.exists_update reporting quiet

/-- A thread takes the free mutex; a reporter stays one. -/
theorem Invariant.acquire {state next : State ι} (inv : Invariant state) {thread : ι} {pc : Pc}
    (taken : state.acquire thread pc = some next) (holding : pc.Holds)
    (own : pc.Facts state.shared) (unwritten : (state.pc thread).Unwritten → pc.Unwritten)
    (reporting : (state.pc thread).Reporting → pc.Reporting) : Invariant next := by
  have owner := inv.owner.acquire holding taken
  obtain ⟨-, rfl⟩ := (state.acquire_eq_some thread pc).mp taken
  exact
    { owner := owner
      facts := Mutex.forall_update own fun other _ => inv.facts other
      written := fun error => (inv.written error).imp_left fun before =>
        Mutex.exists_update_of_imp before unwritten
      aborted := fun error => (inv.aborted error).imp_left fun before =>
        Mutex.exists_update_of_imp before reporting }

/-- A thread releases the mutex it holds; a reporter stays one. -/
theorem Invariant.release {state : State ι} (inv : Invariant state) {thread : ι} {pc : Pc}
    (held : (state.pc thread).Holds) (outside : ¬pc.Holds) (own : pc.Facts state.shared)
    (written : ¬(state.pc thread).Unwritten)
    (reporting : (state.pc thread).Reporting → pc.Reporting) :
    Invariant (state.release thread pc) where
  owner := inv.owner.release held outside
  facts := Mutex.forall_update own fun other _ => inv.facts other
  written := fun error => (inv.written error).imp_left fun before =>
    Mutex.exists_update before written
  aborted := fun error => (inv.aborted error).imp_left fun before =>
    Mutex.exists_update_of_imp before reporting

/-- The operations of an elected reporter on the shared locations. -/
theorem Invariant.act {state : State ι} (inv : Invariant state) {thread : ι} {shared : Locations}
    {pc : Pc} (holding : pc.Holds ↔ (state.pc thread).Holds) (own : pc.Facts shared)
    (others : ∀ other, other ≠ thread → (state.pc other).Facts shared)
    (written : pc.Unwritten ∨ shared.Written) (aborted : pc.Reporting ∨ shared.Aborted) :
    Invariant (state.act thread shared pc) where
  owner := inv.owner.act holding
  facts := Mutex.forall_update own others
  written := fun _ => written.imp_left fun here => ⟨thread, by simpa using here⟩
  aborted := fun _ => aborted.imp_left fun here => ⟨thread, by simpa using here⟩

/-- Every operation of a thread inside a call keeps the invariant. -/
theorem runThread_invariant {state next : State ι} {thread : ι} (inv : Invariant state)
    (taken : runThread state thread = some next) : Invariant next := by
  have own := inv.facts thread
  unfold runThread at taken
  cases at_pc : state.pc thread <;> simp only [at_pc, reduceCtorEq, Option.some.injEq] at taken
  case recordElect failure =>
    split_ifs at taken with error
    · obtain rfl := Option.some.inj taken
      exact inv.goto (by simp [at_pc, Pc.Holds]) trivial (by simp [at_pc, Pc.Reporting])
    · obtain rfl := Option.some.inj taken
      exact inv.act (by simp [at_pc, Pc.Holds]) ⟨rfl, rfl⟩
        (fun other _ => (inv.facts other).elect (by simpa using error) failure)
        (.inl trivial) (.inl trivial)
  case recordLock failure =>
    rw [at_pc] at own
    exact inv.acquire taken trivial own (fun _ => trivial) fun _ => trivial
  case recordFormat failure =>
    rw [at_pc] at own
    subst taken
    have holds : (state.pc thread).Holds := by simp [at_pc, Pc.Holds]
    have stored : (state.shared.storeMessage (formatFailure "socket" failure)).Written :=
      ⟨failure, own.2, rfl⟩
    exact inv.act (by simp [at_pc, Pc.Holds]) ⟨own.1, stored⟩
      (fun other distinct =>
        (inv.facts other).storeMessage (inv.owner.alone holds distinct) own.2)
      (.inr stored) (.inl trivial)
  case recordUnlock =>
    rw [at_pc] at own
    subst taken
    exact inv.release (by simp [at_pc, Pc.Holds]) id own (by simp [at_pc, Pc.Unwritten])
      fun _ => trivial
  case recordAbort =>
    rw [at_pc] at own
    subst taken
    exact inv.act (by simp [at_pc, Pc.Holds]) trivial
      (fun other _ => (inv.facts other).storeAbort) (.inr own.2) (.inr (aborted_storeAbort _))
  case messageLock =>
    exact inv.acquire taken trivial trivial (by simp [at_pc, Pc.Unwritten])
      (by simp [at_pc, Pc.Reporting])
  case messageRead =>
    subst taken
    exact inv.goto (by simp [at_pc, Pc.Holds]) rfl (by simp [at_pc, Pc.Reporting])
  case messageUnlock text =>
    subst taken
    have released : Invariant (state.release thread .idle) :=
      inv.release (by simp [at_pc, Pc.Holds]) id trivial (by simp [at_pc, Pc.Unwritten])
        (by simp [at_pc, Pc.Reporting])
    exact ⟨released.owner, released.facts, released.written, released.aborted⟩

/-- The invariant is kept by every label. -/
theorem step_invariant {state next : State ι} {label : Label ι} (inv : Invariant state)
    (taken : step state label = some next) : Invariant next := by
  cases label with
  | recordFailure thread failure | message thread =>
      simp only [step, Option.ite_none_right_eq_some, Option.some.injEq] at taken
      obtain ⟨idle, rfl⟩ := taken
      exact inv.goto (by simp [idle, Pc.Holds]) trivial (by simp [idle, Pc.Reporting])
  | hasError thread =>
      simp only [step, Option.ite_none_right_eq_some, Option.some.injEq] at taken
      obtain ⟨-, rfl⟩ := taken
      exact ⟨inv.owner, inv.facts, inv.written, inv.aborted⟩
  | run thread => exact runThread_invariant inv taken

/-- An error an observer may safely have seen: the report of `failure` has won, its reporter is
past taking the mutex, and the abort word is stored. -/
structure Safe (failure : Failure) (state : State ι) : Prop where
  /-- The error bit is up. -/
  error : state.shared.hasError = true
  /-- The failure that won the election. -/
  first : state.shared.first = some failure
  /-- Kernels have been told to stop. -/
  aborted : state.shared.Aborted
  /-- No reporter is still waiting for the mutex. -/
  locked : ∀ thread, ¬(state.pc thread).Waiting

omit [DecidableEq ι] in
/-- Inside a critical section of a reader, the text of a safe error is in place. -/
theorem Safe.message_eq {failure : Failure} {state : State ι} (safe : Safe failure state)
    (inv : Invariant state) {thread : ι} (holds : (state.pc thread).Holds)
    (reading : ¬(state.pc thread).Unwritten) :
    state.shared.message = formatFailure "socket" failure := by
  rcases inv.written safe.error with ⟨other, unwritten⟩ | ⟨recorded, first, stored⟩
  · have distinct : other ≠ thread := fun same => reading (same ▸ unwritten)
    have outside : ¬(state.pc other).Holds := inv.owner.alone holds distinct
    have locked := safe.locked other
    cases at_pc : state.pc other <;> simp_all [Pc.Unwritten, Pc.Holds, Pc.Waiting]
  · obtain rfl : recorded = failure := Option.some.inj (first.symm.trans safe.first)
    exact stored

/-- An operation that keeps the error bit and its failure, and does not lead to the mutex. -/
theorem Safe.act {failure : Failure} {state : State ι} (safe : Safe failure state) {thread : ι}
    {shared : Locations} {pc : Pc} (error : shared.hasError = state.shared.hasError)
    (first : shared.first = state.shared.first) (aborted : shared.Aborted) (past : ¬pc.Waiting) :
    Safe failure (state.act thread shared pc) where
  error := error.trans safe.error
  first := first.trans safe.first
  aborted := aborted
  locked := by
    intro other
    rw [Mutex.State.pc_act, Function.update_apply]
    split_ifs
    · exact past
    · exact safe.locked other

/-- A thread that touches no location goes on, and not to wait for the mutex. -/
theorem Safe.goto {failure : Failure} {state : State ι} (safe : Safe failure state) {thread : ι}
    {pc : Pc} (past : ¬pc.Waiting) : Safe failure (state.goto thread pc) :=
  safe.act rfl rfl safe.aborted past

/-- The answers one label adds: a `has_error()` of the current bit, or a text read before. -/
theorem step_log {state next : State ι} {label : Label ι} (inv : Invariant state)
    (taken : step state label = some next) :
    next.log = state.log ∨
    (∃ observer, label = .hasError observer ∧
      next = state.answer (.hasError observer state.shared.hasError)) ∨
    ∃ reader, (state.pc reader).Holds ∧ ¬(state.pc reader).Unwritten ∧
      next.log = state.log ++ [.message reader state.shared.message] := by
  cases label with
  | recordFailure thread failure | message thread =>
      simp only [step, Option.ite_none_right_eq_some, Option.some.injEq] at taken
      exact .inl (by simp [← taken.2])
  | hasError thread =>
      simp only [step, Option.ite_none_right_eq_some, Option.some.injEq] at taken
      exact .inr (.inl ⟨thread, rfl, taken.2.symm⟩)
  | run thread =>
      have own := inv.facts thread
      simp only [step, runThread] at taken
      cases at_pc : state.pc thread <;>
        simp only [at_pc, Mutex.State.acquire_eq_some, reduceCtorEq, Option.some.injEq] at taken
      case recordElect failure =>
        split_ifs at taken <;> exact .inl (by simp [← Option.some.inj taken])
      case recordLock failure | messageLock => exact .inl (by simp [← taken.2])
      case messageUnlock text =>
        rw [at_pc] at own
        refine .inr (.inr ⟨thread, by simp [at_pc, Pc.Holds], by simp [at_pc, Pc.Unwritten], ?_⟩)
        simp [← taken, show text = state.shared.message from own]
      all_goals exact .inl (by simp [← taken])

/-- A safe error stays safe: no report is elected again, and the text is stored under the mutex. -/
theorem Safe.step {failure : Failure} {state next : State ι} {label : Label ι}
    (safe : Safe failure state) (taken : step state label = some next) : Safe failure next := by
  cases label with
  | recordFailure thread report | message thread =>
      simp only [AsyncError.step, Option.ite_none_right_eq_some, Option.some.injEq] at taken
      obtain ⟨-, rfl⟩ := taken
      exact safe.goto id
  | hasError thread =>
      simp only [AsyncError.step, Option.ite_none_right_eq_some, Option.some.injEq] at taken
      obtain ⟨-, rfl⟩ := taken
      exact ⟨safe.error, safe.first, safe.aborted, safe.locked⟩
  | run thread =>
      simp only [AsyncError.step, runThread] at taken
      cases at_pc : state.pc thread <;>
        simp only [at_pc, Mutex.State.acquire_eq_some, safe.error, if_true, reduceCtorEq,
          Option.some.injEq] at taken
      case recordElect report | messageRead => exact taken ▸ safe.goto id
      case recordLock report =>
        have waiting := safe.locked thread
        simp [at_pc, Pc.Waiting] at waiting
      case recordFormat report => exact taken ▸ safe.act rfl rfl safe.aborted id
      case recordAbort => exact taken ▸ safe.act rfl rfl (aborted_storeAbort _) id
      case messageLock =>
        obtain ⟨-, rfl⟩ := taken
        have moved : Safe failure (state.goto thread .messageRead) := safe.goto id
        exact ⟨moved.error, moved.first, moved.aborted, moved.locked⟩
      case recordUnlock =>
        subst taken
        have moved : Safe failure (state.goto thread .recordAbort) := safe.goto id
        exact ⟨moved.error, moved.first, moved.aborted, moved.locked⟩
      case messageUnlock text =>
        subst taken
        have moved : Safe failure (state.goto thread .idle) := safe.goto id
        exact ⟨moved.error, moved.first, moved.aborted, moved.locked⟩

/-- From a safe error on, every run returns the recorded text. -/
theorem run_safe {failure : Failure} {state final : State ι} {labels : List (Label ι)}
    (inv : Invariant state) (safe : Safe failure state)
    (execution : exec step state labels = some final) :
    ∃ later, final.log = state.log ++ later ∧
      ∀ event ∈ later, ∀ reader text, event = Observation.message reader text →
        text = formatFailure "socket" failure := by
  refine (exec_appends Mutex.State.log (fun state : State ι => Invariant state ∧ Safe failure state)
    (fun _ _ _ both taken => ⟨step_invariant both.1 taken, both.2.step taken⟩) ?_ ⟨inv, safe⟩
    execution).2
  rintro state label next ⟨inv, safe⟩ taken
  rcases step_log inv taken with same | ⟨observer, -, rfl⟩ | ⟨reader, holds, written, grown⟩
  · exact ⟨[], by simp [same]⟩
  · exact ⟨[.hasError observer state.shared.hasError], by simp⟩
  · refine ⟨_, grown, ?_⟩
    intro event new other text given
    obtain ⟨-, rfl⟩ : reader = other ∧ state.shared.message = text := by simp_all
    exact safe.message_eq inv holds written

omit [DecidableEq ι] in
/-- A load of the error bit outside the window finds a safe error. -/
theorem safe_of_outsideWindow {state : State ι} {thread : ι} (inv : Invariant state)
    (outside : OutsideWindow state (.hasError thread)) (error : state.shared.hasError = true) :
    ∃ failure, Safe failure state := by
  have quiet : ∀ thread, ¬(state.pc thread).Exposed state.shared.deviceAbort := outside
  have locked : ∀ thread, ¬(state.pc thread).Waiting := by
    intro other waiting
    apply quiet other
    cases at_pc : state.pc other <;> simp_all [Pc.Waiting, Pc.Exposed]
  have aborted : state.shared.Aborted := by
    by_cases null : state.shared.deviceAbort = none
    · exact .inl null
    · rcases inv.aborted error with ⟨other, reporting⟩ | aborted
      · exfalso
        apply quiet other
        cases at_pc : state.pc other <;> simp_all [Pc.Reporting, Pc.Exposed]
      · exact aborted
  have recorded : ∃ failure, state.shared.first = some failure := by
    rcases inv.written error with ⟨other, unwritten⟩ | ⟨failure, first, -⟩
    · have facts := inv.facts other
      cases at_pc : state.pc other <;> simp_all [Pc.Unwritten, Pc.Facts]
    · exact ⟨failure, first⟩
  obtain ⟨failure, first⟩ := recorded
  exact ⟨failure, error, first, aborted, locked⟩

/-- In a run whose observers stay outside the window, a seen error is safe. -/
theorem run_seen {deviceAbort : Option UInt32} {state : State ι} {labels : List (Label ι)}
    (along : Along step OutsideWindow (initial deviceAbort) labels)
    (execution : exec step (initial deviceAbort) labels = some state) :
    Invariant state ∧ ∀ observer, Observation.hasError observer true ∈ state.log →
      ∃ failure, Safe failure state := by
  refine exec_invariant_along (fun state : State ι => Invariant state ∧
    ∀ observer, Observation.hasError observer true ∈ state.log → ∃ failure, Safe failure state)
    ?_ ⟨invariant_initial deviceAbort, by simp [initial]⟩ along execution
  rintro state label next ⟨inv, seen⟩ outside taken
  refine ⟨step_invariant inv taken, ?_⟩
  intro observer answered
  rcases step_log inv taken with same | ⟨asking, rfl, rfl⟩ | ⟨reader, -, -, grown⟩
  · obtain ⟨failure, safe⟩ := seen observer (same ▸ answered)
    exact ⟨failure, safe.step taken⟩
  · have found : ∃ failure, Safe failure state := by
      rcases List.mem_append.mp answered with earlier | new
      · exact seen observer earlier
      · have error : observer = asking ∧ true = state.shared.hasError := by simpa using new
        exact safe_of_outsideWindow inv outside error.2.symm
    obtain ⟨failure, safe⟩ := found
    exact ⟨failure, safe.step taken⟩
  · obtain ⟨failure, safe⟩ := seen observer (by simpa [grown] using answered)
    exact ⟨failure, safe.step taken⟩

/-- In every run whose observers never load the error bit while its report is unfinished, a seen
error comes with the abort word and, ever after, with the text of the first recorded failure. -/
theorem record_failure_published {deviceAbort : Option UInt32} {state : State ι}
    {labels : List (Label ι)} (along : Along step OutsideWindow (initial deviceAbort) labels)
    (execution : exec step (initial deviceAbort) labels = some state) : Published state := by
  obtain ⟨inv, seen⟩ := run_seen along execution
  intro observer answered
  obtain ⟨failure, safe⟩ := seen observer answered
  refine ⟨safe.aborted, failure, safe.first, ?_⟩
  intro labels final continuation
  obtain ⟨later, grown, returns⟩ := run_safe inv safe continuation
  refine ⟨later, grown, ?_⟩
  intro reader text given
  obtain rfl := returns _ given reader text rfl
  exact ⟨rfl, formatFailure_ne_empty "socket" failure⟩

/-- Thread 0 reports, thread 1 reports in vain and checks when the first report is finished. -/
def lateCheck (n : ℕ) [NeZero n] : List (Label (Fin n)) :=
  [.recordFailure 0 lostConnection, .hasError 1, .recordFailure 1 lostConnection, .run 0, .run 1,
    .run 0, .run 0, .run 0, .run 0, .hasError 1]

theorem record_failure_published_late_check :
    ∃ state : State (Fin 2), exec step (initial (some 0)) (lateCheck 2) = some state ∧
      Along step OutsideWindow (initial (some 0)) (lateCheck 2) ∧
      Observation.hasError 1 true ∈ state.log ∧ Published state := by
  obtain ⟨state, execution, seen⟩ := Option.map_eq_some_iff.mp
    (show (exec step (initial (some 0)) (lateCheck 2)).map Mutex.State.log =
      some [.hasError 1 false, .hasError 1 true] from rfl)
  have along : Along step OutsideWindow (initial (some 0)) (lateCheck 2) :=
    along_of_checkAlong (fun _ _ => of_decide_eq_true)
      (show checkAlong step (fun state label => decide (OutsideWindow state label))
        (initial (some 0)) (lateCheck 2) = true by decide +kernel)
  exact ⟨state, execution, along, by simp [seen], record_failure_published along execution⟩

end AsyncError
end Socket
end NanoNccl
