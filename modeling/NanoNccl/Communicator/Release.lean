import NanoNccl.Communicator.Lifetime

/-!
# What the destructor of a communicator waits for

Collective calls with any CUDA failures, the device completing operations in any order the streams
allow, and the destructor at any point in between. Every operation a communicator enqueued is
ordered before its last completion event or is on its fallback stream, so that
`release_lifetime_tracking` waits for all of them.
-/

namespace NanoNccl
namespace Communicator
namespace Lifetime

open Streams Throwing

/-- A communicator, the operations it enqueued and how far the device is with them. -/
structure System where
  tracked : Tracked
  /-- The operations of the log that are complete. -/
  completed : ℕ → Bool
  /-- `release_lifetime_tracking` has returned. -/
  released : Bool

/-- What can happen next. -/
inductive Label
  /-- A collective call; `asyncError` is the message of a failed proxy. -/
  | call (cuda : Cuda) (asyncError : Option String) (call : Call)
  /-- The device completes an operation. -/
  | finish (op : ℕ)
  /-- `release_lifetime_tracking` returns. -/
  | release

/-- A communicator right after construction. -/
def System.initial : System where
  tracked := ⟨Communicator.initial, [], false⟩
  completed := fun _ => false
  released := false

/-- The work captured by the last record of the completion event is complete. -/
def EventComplete (state : System) : Prop :=
  ∀ last < state.tracked.log.length, LastRecord state.tracked.log () last →
    state.completed last = true

/-- All operations enqueued on a stream are complete. -/
def StreamComplete (state : System) (stream : ℕ) : Prop :=
  ∀ i < state.tracked.log.length, ∀ op ∈ state.tracked.log[i]?, op.stream = stream →
    state.completed i = true

instance (state : System) : Decidable (EventComplete state) :=
  inferInstanceAs (Decidable (∀ _ < _, _ → _))

instance (state : System) (stream : ℕ) : Decidable (StreamComplete state stream) :=
  inferInstanceAs (Decidable (∀ _ < _, ∀ _ ∈ _, _ → _))

/-- `cudaEventQuery` answers `cudaSuccess` only when the captured work is complete. -/
def QueryTruthful (cuda : Cuda) (state : System) : Prop :=
  cuda.status .eventQuery = .success → EventComplete state

instance (cuda : Cuda) (state : System) : Decidable (QueryTruthful cuda state) :=
  inferInstanceAs (Decidable (_ → _))

/-- `cudaStreamSynchronize` and `cudaEventSynchronize` of `release_lifetime_tracking` have
returned; a failure of one of them stops the process. -/
def ReleaseReady (state : System) : Prop :=
  (state.tracked.host.fallbackInFlight = true →
    StreamComplete state state.tracked.host.fallbackStream) ∧
  (state.tracked.host.completionEvent = true ∧ state.tracked.host.completionRecorded = true →
    EventComplete state)

instance (state : System) : Decidable (ReleaseReady state) :=
  inferInstanceAs (Decidable (_ ∧ _))

/-- One step. -/
def step (kRanks fifoBytes : ℕ) (state : System) : Label → Option System
  | .call cuda asyncError call =>
      if state.released = false ∧ QueryTruthful cuda state then
        some { state with
          tracked := (execute (collective cuda kRanks fifoBytes asyncError call) state.tracked).2 }
      else none
  | .finish op =>
      if op < state.tracked.log.length ∧
          ∀ i < op, Direct state.tracked.log i op → state.completed i = true then
        some { state with completed := Function.update state.completed op true }
      else none
  | .release =>
      if state.released = false ∧ ReleaseReady state then some { state with released := true }
      else none

/-- The release waits for the operation: it is ordered before the last completion event, or it is
on the fallback stream. -/
def Covered (state : Tracked) (i : ℕ) : Prop :=
  (state.host.completionEvent = true ∧ state.host.completionRecorded = true ∧
    ∃ last, LastRecord state.log () last ∧ Ordered state.log i last) ∨
  (state.host.fallbackInFlight = true ∧ ∃ op ∈ state.log[i]?, op.stream = state.host.fallbackStream)

/-- Launches are tracked by the completion event, or the call that failed left its stream. -/
structure Sound (state : Tracked) : Prop where
  unused : state.host.hasUntrackedLaunch = false → state.host.hasLaunch = false → state.log = []
  gathered : state.host.hasUntrackedLaunch = false → state.host.hasLaunch = true →
    state.host.completionEvent = true ∧ state.host.completionRecorded = true ∧
      Gathered state.log ()
  failed : state.host.hasUntrackedLaunch = true → ∀ i < state.log.length, Covered state i

theorem Sound.covered {state : Tracked} (sound : Sound state) {i : ℕ}
    (inside : i < state.log.length) : Covered state i := by
  cases untracked : state.host.hasUntrackedLaunch
  · cases launched : state.host.hasLaunch
    · rw [sound.unused untracked launched] at inside
      simp at inside
    · obtain ⟨created, recorded, last, latest, ordered⟩ := sound.gathered untracked launched
      exact .inl ⟨created, recorded, last, latest, ordered i inside⟩
  · exact sound.failed untracked i inside

section Call

variable {stream : ℕ} {before after : Tracked}

theorem script_on_stream {state : State} {op : StreamOp} (member : op ∈ script state stream) :
    op.stream = stream := by
  rcases List.mem_append.mp member with waits | launch
  · unfold waitOps at waits
    split at waits
    · rw [List.mem_singleton.mp waits]
    · cases waits
  · simp only [List.mem_cons, List.not_mem_nil, or_false] at launch
    rcases launch with rfl | rfl <;> rfl

theorem Returned.sound (returned : Returned stream before after) (sound : Sound before) :
    Sound after := by
  have gathered : Gathered after.log () := by
    rw [returned.log]
    unfold script waitOps
    cases launched : before.host.hasLaunch
    · rw [sound.unused returned.tracked launched]
      exact gathered_first stream ()
    · obtain ⟨_, _, gathered⟩ := sound.gathered returned.tracked launched
      exact gathered.chain stream
  refine ⟨fun _ idle => ?_, fun _ _ => ?_, fun untracked => ?_⟩
  · rw [returned.hasLaunch] at idle
    cases idle
  · exact ⟨returned.completionEvent, returned.completionRecorded, gathered⟩
  · rw [returned.hasUntrackedLaunch] at untracked
    cases untracked

theorem Rejected.sound (rejected : Rejected before after) (sound : Sound before) :
    Sound after := by
  obtain ⟨-, log, created, recorded, fallback, in_flight, launched, untracked⟩ := rejected
  constructor
  · rw [log, launched, untracked]
    exact sound.unused
  · rw [log, launched, untracked, created, recorded]
    exact sound.gathered
  · unfold Covered
    rw [log, untracked, created, recorded, in_flight, fallback]
    exact sound.failed

/-- The last record stays the last one unless the whole script was enqueued. -/
theorem gathered_prefix {log new : List StreamOp} {state : State}
    (launched : state.hasLaunch = true)
    (gathered : Gathered log ()) (within : new <+: script state stream) :
    ∃ last, LastRecord (log ++ new) () last ∧ ∀ i < log.length, Ordered (log ++ new) i last := by
  have ops : script state stream =
      [⟨stream, .wait ()⟩, ⟨stream, .work⟩] ++ [⟨stream, .record ()⟩] := by
    simp [script, waitOps, launched]
  rw [ops, List.prefix_concat_iff] at within
  rcases within with rfl | shorter
  · obtain ⟨last, latest, ordered⟩ := gathered.chain stream
    refine ⟨last, latest, fun i inside => ordered i ?_⟩
    rw [List.length_append]
    omega
  · obtain ⟨last, latest, ordered⟩ := gathered
    refine ⟨last, latest.append fun op member => ?_, fun i inside => (ordered i inside).append new⟩
    have possible := shorter.subset member
    simp only [List.mem_cons, List.not_mem_nil, or_false] at possible
    rcases possible with rfl | rfl <;> simp

theorem Failed.sound (failed : Failed stream before after) (sound : Sound before) :
    Sound after := by
  refine ⟨fun tracked => ?_, fun tracked => ?_, fun _ i inside => ?_⟩
  · rw [failed.hasUntrackedLaunch] at tracked
    cases tracked
  · rw [failed.hasUntrackedLaunch] at tracked
    cases tracked
  obtain ⟨new, within, log⟩ := failed.enqueued
  by_cases old : i < before.log.length
  · cases launched : before.host.hasLaunch
    · rw [sound.unused failed.tracked launched] at old
      simp at old
    · obtain ⟨created, recorded, gathered⟩ := sound.gathered failed.tracked launched
      obtain ⟨last, latest, ordered⟩ := gathered_prefix launched gathered within
      rw [← log] at latest ordered
      exact .inl ⟨failed.completionEvent created, failed.completionRecorded.trans recorded, last,
        latest, ordered i old⟩
  · -- the operation is one the failed call enqueued
    obtain ⟨op, found⟩ : ∃ op, after.log[i]? = some op := ⟨_, List.getElem?_eq_getElem inside⟩
    have appended := found
    rw [log, List.getElem?_append_right (by omega)] at appended
    have member : op ∈ script before.host stream :=
      within.subset (List.mem_of_getElem? appended)
    refine .inr ⟨failed.fallbackInFlight, op, found, ?_⟩
    rw [failed.fallbackStream]
    exact script_on_stream member

end Call

/-! ### Every run -/

section Run

variable {kRanks fifoBytes : ℕ} {state next : System}

/-- What holds of every reachable system. -/
structure Tracking (state : System) : Prop where
  sound : Sound state.tracked
  enqueued : ∀ i, state.completed i = true → i < state.tracked.log.length
  closed : Closed state.tracked.log fun i => state.completed i = true

theorem tracking_initial : Tracking System.initial where
  sound := ⟨fun _ _ => rfl, by simp [System.initial, Communicator.initial],
    by simp [System.initial, Communicator.initial]⟩
  enqueued := by simp [System.initial]
  closed := by
    intro i j _ completed
    simp [System.initial] at completed

theorem step_call {cuda : Cuda} {asyncError : Option String} {call : Call}
    (stepped : step kRanks fifoBytes state (.call cuda asyncError call) = some next) :
    QueryTruthful cuda state ∧
      next = { state with
        tracked :=
          (execute (collective cuda kRanks fifoBytes asyncError call) state.tracked).2 } := by
  simp only [step] at stepped
  split at stepped
  · rename_i allowed
    exact ⟨allowed.2, (Option.some.inj stepped).symm⟩
  · cases stepped

/-- A call keeps the log and may add to it. -/
theorem call_outcome (cuda : Cuda) (kRanks fifoBytes : ℕ) (asyncError : Option String) (call : Call)
    {before : Tracked} (sound : Sound before) :
    Sound (execute (collective cuda kRanks fifoBytes asyncError call) before).2 ∧
      ∃ new, (execute (collective cuda kRanks fifoBytes asyncError call) before).2.log =
        before.log ++ new := by
  rcases (collective_ensures cuda kRanks fifoBytes asyncError call before).ends with
    ⟨_, _, returned, _⟩ | ⟨_, _, rejected | failed, _⟩
  · exact ⟨returned.sound sound, _, returned.log⟩
  · exact ⟨rejected.sound sound, [], by rw [rejected.log, List.append_nil]⟩
  · obtain ⟨new, -, log⟩ := failed.enqueued
    exact ⟨failed.sound sound, new, log⟩

theorem Tracking.step {label : Label} (tracking : Tracking state)
    (stepped : step kRanks fifoBytes state label = some next) : Tracking next := by
  cases label with
  | call cuda asyncError call =>
      obtain ⟨-, rfl⟩ := step_call stepped
      obtain ⟨sound, new, log⟩ :=
        call_outcome cuda kRanks fifoBytes asyncError call tracking.sound
      refine ⟨sound, fun i completed => ?_, ?_⟩
      · have old := tracking.enqueued i completed
        simp only [log, List.length_append]
        omega
      · simp only [log]
        exact tracking.closed.append tracking.enqueued new
  | finish op =>
      simp only [Lifetime.step] at stepped
      split at stepped
      · rename_i ready
        cases stepped
        refine ⟨tracking.sound, fun i completed => ?_, fun i j direct completed => ?_⟩
        · by_cases same : i = op
          · rw [same]
            exact ready.1
          · exact tracking.enqueued i (by simpa [same] using completed)
        · have earlier : state.completed i = true := by
            by_cases same : j = op
            · subst same
              exact ready.2 i direct.lt_length.1 direct
            · exact tracking.closed i j direct (by simpa [same] using completed)
          by_cases same : i = op
          · simp [same]
          · simpa [same] using earlier
      · cases stepped
  | release =>
      simp only [Lifetime.step] at stepped
      split at stepped
      · cases stepped
        exact ⟨tracking.sound, tracking.enqueued, tracking.closed⟩
      · cases stepped

/-- What the destructor waits for is everything. -/
theorem Tracking.all_complete (tracking : Tracking state) (ready : ReleaseReady state) {i : ℕ}
    (inside : i < state.tracked.log.length) : state.completed i = true := by
  obtain ⟨stream, event⟩ := ready
  rcases tracking.sound.covered inside with
    ⟨created, recorded, last, latest, ordered⟩ | ⟨in_flight, op, found, same⟩
  · exact tracking.closed.ordered ordered (event ⟨created, recorded⟩ last latest.lt_length latest)
  · exact stream in_flight i inside op found same

/-- A complete completion event of a tracked communicator stands for everything. -/
theorem Tracking.all_complete_of_event (tracking : Tracking state) {cuda : Cuda}
    (truthful : QueryTruthful cuda state)
    (untracked : state.tracked.host.hasUntrackedLaunch = false)
    (ready : state.tracked.host.hasLaunch = true → cuda.status .eventQuery = .success) {i : ℕ}
    (inside : i < state.tracked.log.length) : state.completed i = true := by
  cases launched : state.tracked.host.hasLaunch
  · rw [tracking.sound.unused untracked launched] at inside
    simp at inside
  · obtain ⟨_, _, last, latest, ordered⟩ := tracking.sound.gathered untracked launched
    exact tracking.closed.ordered (ordered i inside)
      (truthful (ready launched) last latest.lt_length latest)

/-- A communicator whose tracking failed: every call throws before its `try` block. -/
theorem rejected_of_untracked (cuda : Cuda) (kRanks fifoBytes : ℕ) (asyncError : Option String)
    (call : Call) {before : Tracked} (untracked : before.host.hasUntrackedLaunch = true) :
    (∃ error,
      (execute (collective cuda kRanks fifoBytes asyncError call) before).1 = .error error) ∧
      Rejected before (execute (collective cuda kRanks fifoBytes asyncError call) before).2 := by
  rcases (collective_ensures cuda kRanks fifoBytes asyncError call before).ends with
    ⟨_, _, returned, _⟩ | ⟨error, threw, rejected | failed, _⟩
  · rw [returned.tracked] at untracked
    cases untracked
  · exact ⟨⟨error, threw⟩, rejected⟩
  · rw [failed.tracked] at untracked
    cases untracked

/-- Nothing is enqueued and the fallback stream stays once tracking failed. -/
structure Frozen (log : List StreamOp) (stream : ℕ) (state : System) : Prop where
  hasUntrackedLaunch : state.tracked.host.hasUntrackedLaunch = true
  fallbackInFlight : state.tracked.host.fallbackInFlight = true
  fallbackStream : state.tracked.host.fallbackStream = stream
  log : state.tracked.log = log

theorem Frozen.step {log : List StreamOp} {stream : ℕ} {label : Label}
    (frozen : Frozen log stream state) (stepped : step kRanks fifoBytes state label = some next) :
    Frozen log stream next := by
  cases label with
  | call cuda asyncError call =>
      obtain ⟨-, rfl⟩ := step_call stepped
      obtain ⟨-, -, same_log, -, -, fallback, in_flight, -, untracked⟩ :=
        rejected_of_untracked cuda kRanks fifoBytes asyncError call frozen.hasUntrackedLaunch
      exact ⟨untracked.trans frozen.hasUntrackedLaunch, in_flight.trans frozen.fallbackInFlight,
        fallback.trans frozen.fallbackStream, same_log.trans frozen.log⟩
  | finish op =>
      simp only [Lifetime.step] at stepped
      split at stepped
      · cases stepped
        exact ⟨frozen.hasUntrackedLaunch, frozen.fallbackInFlight, frozen.fallbackStream,
          frozen.log⟩
      · cases stepped
  | release =>
      simp only [Lifetime.step] at stepped
      split at stepped
      · cases stepped
        exact ⟨frozen.hasUntrackedLaunch, frozen.fallbackInFlight, frozen.fallbackStream,
          frozen.log⟩
      · cases stepped

/-- No operation a communicator enqueued escapes its destructor, whatever CUDA calls fail: each is
ordered before the last completion event or on the fallback stream, so all are complete when
`release_lifetime_tracking` returns. Once a call failed inside its `try` block every later call
throws, enqueues nothing and keeps the fallback stream. FIFO storage is replaced only when all
operations enqueued so far are complete. -/
theorem nothing_escapes {labels : List Label}
    (execution : StepSystem.exec (step kRanks fifoBytes) .initial labels = some state) :
    (∀ i < state.tracked.log.length, Covered state.tracked i) ∧
      (∀ next, step kRanks fifoBytes state .release = some next →
        ∀ i < state.tracked.log.length, state.completed i = true) ∧
      (∀ cuda asyncError call next,
        step kRanks fifoBytes state (.call cuda asyncError call) = some next →
        (execute (collective cuda kRanks fifoBytes asyncError call) state.tracked).1.isOk = false →
        next.tracked.insideTry = true →
        ∀ later final, StepSystem.exec (step kRanks fifoBytes) next later = some final →
          final.tracked.log = next.tracked.log ∧
          final.tracked.host.fallbackInFlight = true ∧
          final.tracked.host.fallbackStream = call.buffers.stream ∧
          ∀ cuda asyncError call,
            (execute (collective cuda kRanks fifoBytes asyncError call)
              final.tracked).1.isOk = false) ∧
      (∀ cuda asyncError call next,
        step kRanks fifoBytes state (.call cuda asyncError call) = some next →
        next.tracked.host.slotElems ≠ state.tracked.host.slotElems →
        ∀ i < state.tracked.log.length, state.completed i = true) := by
  have tracking : Tracking state :=
    StepSystem.Reachable.invariant Tracking (fun _ _ _ tracking stepped => tracking.step stepped)
      tracking_initial ⟨labels, execution⟩
  refine ⟨fun i inside => tracking.sound.covered inside, ?_, ?_, ?_⟩
  · intro next stepped i inside
    simp only [step] at stepped
    split at stepped
    · rename_i allowed
      exact tracking.all_complete allowed.2 inside
    · cases stepped
  · intro cuda asyncError call next stepped threw inside later final execution
    obtain ⟨-, rfl⟩ := step_call stepped
    have failed : Failed call.buffers.stream state.tracked
        (execute (collective cuda kRanks fifoBytes asyncError call) state.tracked).2 := by
      rcases (collective_ensures cuda kRanks fifoBytes asyncError call
        state.tracked).ends with ⟨_, answer, _⟩ | ⟨_, _, rejected | failed, _⟩
      · rw [answer] at threw
        cases threw
      · rw [rejected.insideTry] at inside
        cases inside
      · exact failed
    have frozen : Frozen _ call.buffers.stream final :=
      StepSystem.Reachable.invariant (Frozen _ call.buffers.stream)
        (fun _ _ _ frozen stepped => frozen.step stepped)
        ⟨failed.hasUntrackedLaunch, failed.fallbackInFlight, failed.fallbackStream, rfl⟩
        ⟨later, execution⟩
    refine ⟨frozen.log, frozen.fallbackInFlight, frozen.fallbackStream, ?_⟩
    intro cuda asyncError call
    obtain ⟨⟨error, threw⟩, -⟩ :=
      rejected_of_untracked cuda kRanks fifoBytes asyncError call frozen.hasUntrackedLaunch
    rw [threw]
    rfl
  · intro cuda asyncError call next stepped replaced i inside
    obtain ⟨truthful, rfl⟩ := step_call stepped
    have safely : ReplacedSafely cuda state.tracked.host
        (execute (collective cuda kRanks fifoBytes asyncError call) state.tracked).2.host := by
      rcases (collective_ensures cuda kRanks fifoBytes asyncError call
        state.tracked).ends with ⟨_, _, _, safely⟩ | ⟨_, _, _, safely⟩ <;> exact safely
    obtain ⟨untracked, ready⟩ := safely replaced
    exact tracking.all_complete_of_event truthful untracked ready inside

/-- The device is busy and `cudaEventRecord` fails although it records the event. -/
def failingRecord : Cuda where
  status := fun call =>
    if call = .eventQuery then .notReady else if call = .eventRecord then .failure else .success
  lands := fun _ => true

/-- A call on stream 1, and a call on stream 2 while the first one is running, whose event cannot
be recorded. -/
def failedRecordRun : List Label :=
  [.call ⟨fun _ => .success, fun _ => false⟩ none (.allReduce ⟨4096, 65536, 1⟩ 1024 .float .sum),
    .finish 0,
    .call failingRecord none (.allReduce ⟨4096, 65536, 2⟩ 1024 .float .sum)]

theorem nothing_escapes_failedRecordRun :
    ∃ state, StepSystem.exec (step 2 8192) .initial failedRecordRun = some state ∧
      state.tracked.log.length = 5 ∧ ∀ i < 5, Covered state.tracked i := by
  have execution : StepSystem.exec (step 2 8192) .initial failedRecordRun = some _ := rfl
  refine ⟨_, execution, rfl, ?_⟩
  exact (nothing_escapes execution).1

end Run

end Lifetime
end Communicator
end NanoNccl
