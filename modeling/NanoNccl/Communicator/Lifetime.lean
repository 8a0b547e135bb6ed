import NanoNccl.Communicator.Launch
import NanoNccl.Lib.Execution
import NanoNccl.Lib.Streams
import NanoNccl.Lib.Throwing

/-!
# Lifetime tracking of enqueued work

The destructor of a communicator frees memory that its kernels use, so it has to wait for every
operation the communicator enqueued on a stream of a caller. What it waits for is kept in the
completion event and in the fallback stream. Here a collective call is run together with the log
of the operations it enqueues; any of its CUDA calls may fail, and one that fails may still have
enqueued its operation.
-/

namespace NanoNccl
namespace Communicator
namespace Lifetime

open Streams Throwing

/-- An operation on a stream of a caller; there is one event, `completion_events_[0]`. -/
abbrev StreamOp := Op ℕ Unit

/-- What CUDA does during one collective call. -/
structure Cuda where
  /-- The status each place of the source receives. -/
  status : CudaCall → CudaStatus
  /-- The calls that enqueue their operation even though they report a failure. -/
  lands : CudaCall → Bool

/-- A communicator and what it enqueued. -/
structure Tracked where
  /-- The members of the communicator. -/
  host : State
  /-- All operations enqueued so far, in the order of the calls. -/
  log : List StreamOp
  /-- The last collective call reached the `try` block of `run_typed`. -/
  insideTry : Bool

/-- A piece of a collective call together with the operations it enqueues. -/
abbrev StreamAction := ExceptT Error (StateM Tracked)

/-- A piece that enqueues nothing. -/
def onHost {α : Type} (action : Communicator.Action α) : StreamAction α := fun state =>
  ((execute action state.host).1, { state with host := (execute action state.host).2 })

section

variable (cuda : Cuda)

/-- A CUDA call that enqueues an operation when it succeeds. -/
def submit (call : CudaCall) (op : StreamOp) : StreamAction Unit :=
  modify fun state =>
    { state with
      log := if cuda.status call = .success ∨ cuda.lands call = true then state.log ++ [op]
        else state.log }

/-- `wait_for_previous_launch_on_stream` -/
def waitForPreviousLaunchOnStream (stream : ℕ) : StreamAction Unit := do
  let state ← get
  (if state.host.hasUntrackedLaunch then
    throw (.runtime "cannot launch collective after completion tracking failed")
  else pure ())
  (if state.host.hasLaunch then do
    onHost (cudaCheckThrow cuda.status .waitDevice)
    submit cuda .streamWaitEvent ⟨stream, .wait ()⟩
    onHost (cudaCheckThrow cuda.status .streamWaitEvent)
  else pure ())

/-- `record_completion` -/
def recordCompletion (stream : ℕ) : StreamAction Unit := do
  submit cuda .eventRecord ⟨stream, .record ()⟩
  onHost (Communicator.recordCompletion cuda.status)

/-- `launch_ring_simple` -/
def launchRingSimple (stream : ℕ) : StreamAction Unit := do
  onHost (ensureCompletionEvents cuda.status)
  onHost (cudaCheckThrow cuda.status .launchDevice)
  submit cuda .launch ⟨stream, .work⟩
  onHost (cudaCheckThrow cuda.status .launch)
  recordCompletion cuda stream

/-- The `try` block of `run_typed`. -/
def enqueue (stream : ℕ) : StreamAction Unit := do
  waitForPreviousLaunchOnStream cuda stream
  let state ← get
  (if !state.host.controlInitialized then
    onHost (modify fun state => { state with controlInitialized := true })
  else pure ())
  launchRingSimple cuda stream

/-- `run_typed` -/
def runTyped (fifoBytes : ℕ) (dtype : DType) (stream : ℕ) : StreamAction Unit := do
  onHost (ensureFifoBuffers cuda.status fifoBytes dtype)
  let state ← get
  (if state.host.hasUntrackedLaunch then
    throw (.runtime "cannot launch collective after completion tracking failed")
  else pure ())
  onHost (beginFallbackTracking stream)
  modify fun state => { state with insideTry := true }
  tryCatch (enqueue cuda stream) fun error => do
    onHost (modify fun state => { state with hasUntrackedLaunch := true })
    throw error

/-- A collective call; `asyncError` is the message of a failed proxy. -/
def collective (kRanks fifoBytes : ℕ) (asyncError : Option String) (call : Call) :
    StreamAction Unit := do
  modify fun state => { state with insideTry := false }
  (match asyncError with
  | some message => throw (.runtime message)
  | none => pure ())
  (match validateArgs kRanks call with
  | .error message => throw (.runtime message)
  | .ok _ => pure ())
  (if call.dtype = .bfloat16 then onHost (ensureBf16DevicesValidated cuda.status) else pure ())
  runTyped cuda fifoBytes call.dtype call.buffers.stream

end

/-! ### The log is an addition to the communicator -/

section Forget

variable {cuda : Cuda}

theorem simulates_onHost {α : Type} (action : Communicator.Action α) :
    Simulates Tracked.host (onHost action) action := fun _ => rfl

theorem submit_bind_simulates {α : Type} {call : CudaCall} {op : StreamOp}
    {rest : StreamAction α} {inner : Communicator.Action α}
    (later : Simulates Tracked.host rest inner) :
    Simulates Tracked.host (submit cuda call op >>= fun _ => rest) inner :=
  later.after_hidden fun _ => rfl

theorem waitForPreviousLaunchOnStream_simulates (stream : ℕ) :
    Simulates Tracked.host (waitForPreviousLaunchOnStream cuda stream)
      (Communicator.waitForPreviousLaunchOnStream cuda.status) := by
  unfold waitForPreviousLaunchOnStream Communicator.waitForPreviousLaunchOnStream
  refine simulates_get_bind fun state => ?_
  refine simulates_ite_bind (simulates_throw _) (simulates_ite ?_ (simulates_pure ()))
  exact (simulates_onHost _).bind fun _ => submit_bind_simulates (simulates_onHost _)

theorem recordCompletion_simulates (stream : ℕ) :
    Simulates Tracked.host (recordCompletion cuda stream)
      (Communicator.recordCompletion cuda.status) :=
  submit_bind_simulates (simulates_onHost _)

theorem launchRingSimple_simulates (stream : ℕ) :
    Simulates Tracked.host (launchRingSimple cuda stream)
      (Communicator.launchRingSimple cuda.status) := by
  unfold launchRingSimple Communicator.launchRingSimple
  refine (simulates_onHost _).bind fun _ => (simulates_onHost _).bind fun _ => ?_
  refine submit_bind_simulates ((simulates_onHost _).bind fun _ => ?_)
  exact recordCompletion_simulates stream

theorem enqueue_simulates (stream : ℕ) :
    Simulates Tracked.host (enqueue cuda stream) (Communicator.enqueue cuda.status) := by
  unfold enqueue Communicator.enqueue
  refine (waitForPreviousLaunchOnStream_simulates stream).bind fun _ => ?_
  refine simulates_get_bind fun state => ?_
  exact simulates_ite_bind (simulates_onHost _) (launchRingSimple_simulates stream)

theorem runTyped_simulates (fifoBytes : ℕ) (dtype : DType) (stream : ℕ) :
    Simulates Tracked.host (runTyped cuda fifoBytes dtype stream)
      (Communicator.runTyped cuda.status fifoBytes dtype stream) := by
  unfold runTyped Communicator.runTyped
  refine (simulates_onHost _).bind fun _ => simulates_get_bind fun state => ?_
  refine simulates_ite_bind (simulates_throw _) ((simulates_onHost _).bind fun _ => ?_)
  refine Simulates.after_hidden (fun _ => rfl) ?_
  refine (enqueue_simulates stream).tryCatch fun error => ?_
  exact (simulates_onHost _).bind fun _ => simulates_throw error

/-- Without the log, a call whose proxies have not failed is the call of the launch model. -/
theorem collective_simulates (kRanks fifoBytes : ℕ) (call : Call) :
    Simulates Tracked.host (collective cuda kRanks fifoBytes none call)
      (Communicator.collective cuda.status kRanks fifoBytes call) := by
  unfold collective Communicator.collective
  refine Simulates.after_hidden (fun _ => rfl) ?_
  cases validateArgs kRanks call with
  | error message => exact simulates_throw _
  | ok _ => exact simulates_ite_bind (simulates_onHost _) (runTyped_simulates _ _ _)

end Forget

/-! ### What one call can do -/

section Outcome

variable {cuda : Cuda}

/-- What a call that stops inside its `try` block leaves as it was. -/
structure Kept (before after : State) : Prop where
  slotElems : after.slotElems = before.slotElems
  fallbackStream : after.fallbackStream = before.fallbackStream
  fallbackInFlight : after.fallbackInFlight = before.fallbackInFlight
  completionRecorded : after.completionRecorded = before.completionRecorded
  hasLaunch : after.hasLaunch = before.hasLaunch
  completionEvent : before.completionEvent = true → after.completionEvent = true

@[refl] theorem Kept.refl (state : State) : Kept state state :=
  ⟨rfl, rfl, rfl, rfl, rfl, id⟩

theorem Kept.trans {first second third : State} (earlier : Kept first second)
    (later : Kept second third) : Kept first third where
  slotElems := later.slotElems.trans earlier.slotElems
  fallbackStream := later.fallbackStream.trans earlier.fallbackStream
  fallbackInFlight := later.fallbackInFlight.trans earlier.fallbackInFlight
  completionRecorded := later.completionRecorded.trans earlier.completionRecorded
  hasLaunch := later.hasLaunch.trans earlier.hasLaunch
  completionEvent := later.completionEvent ∘ earlier.completionEvent

/-- A piece of a call stopped after it enqueued the first operations of its script. -/
structure Stopped (script : List StreamOp) (before after : Tracked) : Prop where
  kept : Kept before.host after.host
  insideTry : after.insideTry = before.insideTry
  enqueued : ∃ new, new <+: script ∧ after.log = before.log ++ new

theorem Stopped.append {first : List StreamOp} {before after : Tracked}
    (stopped : Stopped first before after) (second : List StreamOp) :
    Stopped (first ++ second) before after := by
  obtain ⟨kept, insideTry, new, within, log⟩ := stopped
  exact ⟨kept, insideTry, new, within.trans (List.prefix_append _ _), log⟩

/-- A later piece stopped after an earlier one enqueued its whole script. -/
theorem Stopped.after {first second : List StreamOp} {before middle after : Tracked}
    (stopped : Stopped second middle after) (kept : Kept before.host middle.host)
    (insideTry : middle.insideTry = before.insideTry) (log : middle.log = before.log ++ first) :
    Stopped (first ++ second) before after := by
  obtain ⟨later, inside, new, within, grown⟩ := stopped
  refine ⟨kept.trans later, inside.trans insideTry, first ++ new, ?_, by simp [grown, log]⟩
  exact (List.prefix_append_right_inj first).mpr within

theorem ensures_onHost {α : Type} {action : Communicator.Action α} {returns : α → State → Prop}
    {throws : State → Prop} (state : Tracked) (holds : Ensures action state.host returns throws) :
    Ensures (onHost action) state
      (fun value next => ∃ host, returns value host ∧ next = { state with host := host })
      (fun next => ∃ host, throws host ∧ next = { state with host := host }) := by
  have ran : execute (onHost action) state =
      ((execute action state.host).1, { state with host := (execute action state.host).2 }) := rfl
  unfold Ensures at holds ⊢
  rw [ran]
  rcases inner : execute action state.host with ⟨_ | value, host⟩ <;> rw [inner] at holds
  · exact ⟨host, holds, rfl⟩
  · exact ⟨host, holds, rfl⟩

theorem ensures_onHost_modify (change : State → State) (state : Tracked) {throws : Tracked → Prop} :
    Ensures (onHost (modify change)) state
      (fun _ next => next = { state with host := change state.host }) throws := rfl

theorem cudaCheckThrow_ensures (call : CudaCall) (state : State) :
    Ensures (cudaCheckThrow cuda.status call) state
      (fun _ next => next = state ∧ cuda.status call = .success) (fun next => next = state) := by
  unfold cudaCheckThrow
  split
  · rename_i succeeded
    exact ensures_pure ⟨rfl, succeeded⟩
  · exact ensures_throw rfl

/-- The action returns with the given members once it has enqueued the operations, and stops after
some of them when it throws. -/
def Steps {α : Type} (action : StreamAction α) (ops : List StreamOp) (before : Tracked)
    (host : State) : Prop :=
  Ensures action before (fun _ next => next = ⟨host, before.log ++ ops, before.insideTry⟩)
    (Stopped ops before)

theorem Steps.bind {α β : Type} {action : StreamAction α} {next : α → StreamAction β}
    {first second : List StreamOp} {before : Tracked} {middle final : State}
    (earlier : Steps action first before middle) (kept : Kept before.host middle)
    (later : ∀ value,
      Steps (next value) second ⟨middle, before.log ++ first, before.insideTry⟩ final) :
    Steps (action >>= next) (first ++ second) before final := by
  refine Ensures.bind (earlier.imp (fun _ _ returned => returned) fun _ stopped =>
    stopped.append second) ?_
  rintro value _ rfl
  refine (later value).imp ?_ fun _ stopped => stopped.after kept rfl rfl
  rintro _ _ rfl
  rw [List.append_assoc]

theorem steps_pure {α : Type} (value : α) (before : Tracked) :
    Steps (pure value) [] before before.host :=
  ensures_pure (by simp)

/-- A piece that enqueues nothing. -/
theorem steps_onHost {α : Type} {action : Communicator.Action α} {before : Tracked} {host : State}
    (holds : Ensures action before.host (fun _ next => next = host) (Kept before.host)) :
    Steps (onHost action) [] before host := by
  refine (ensures_onHost _ holds).imp ?_ ?_
  · rintro _ _ ⟨_, rfl, rfl⟩
    simp
  · rintro _ ⟨_, kept, rfl⟩
    exact ⟨kept, rfl, [], List.nil_prefix, by simp⟩

theorem steps_check (call : CudaCall) (before : Tracked) :
    Steps (onHost (cudaCheckThrow cuda.status call)) [] before before.host := by
  refine steps_onHost ((cudaCheckThrow_ensures call before.host).imp (fun _ _ => And.left) ?_)
  rintro _ rfl
  rfl

/-- A call that enqueues an operation, followed by a piece that throws unless the call succeeded. -/
theorem steps_submit {call : CudaCall} {op : StreamOp} {action : Communicator.Action Unit}
    {before : Tracked} {host : State}
    (holds : Ensures action before.host
      (fun _ next => next = host ∧ cuda.status call = .success) (Kept before.host)) :
    Steps (submit cuda call op >>= fun _ => onHost action) [op] before host := by
  refine Ensures.bind (ensures_modify_eq _) ?_
  intro _ middle submitted
  have same : middle.host = before.host := by rw [submitted]
  rw [← same] at holds
  refine (ensures_onHost middle holds).imp ?_ ?_ <;> subst submitted
  · rintro _ _ ⟨_, ⟨rfl, succeeded⟩, rfl⟩
    simp [succeeded]
  · rintro _ ⟨_, kept, rfl⟩
    refine ⟨kept, rfl, ?_⟩
    by_cases lands : cuda.status call = .success ∨ cuda.lands call = true
    · exact ⟨[op], List.prefix_rfl, by simp [lands]⟩
    · exact ⟨[], List.nil_prefix, by simp [lands]⟩

theorem steps_submit_check (call : CudaCall) (op : StreamOp) (before : Tracked) :
    Steps (submit cuda call op >>= fun _ => onHost (cudaCheckThrow cuda.status call)) [op] before
      before.host := by
  refine steps_submit ((cudaCheckThrow_ensures call before.host).imp (fun _ _ => id) ?_)
  rintro _ rfl
  rfl

/-- The operations a call enqueues before its launch. -/
def waitOps (state : State) (stream : ℕ) : List StreamOp :=
  if state.hasLaunch then [⟨stream, .wait ()⟩] else []

/-- The operations of a call that returns. -/
def script (state : State) (stream : ℕ) : List StreamOp :=
  waitOps state stream ++ [⟨stream, .work⟩, ⟨stream, .record ()⟩]

/-- The members after a completion event was recorded. -/
def afterLaunch (state : State) : State :=
  { state with
    completionEvent := true
    completionRecorded := true
    fallbackInFlight := false
    hasLaunch := true
    launches := state.launches + 1 }

theorem waitForPreviousLaunchOnStream_steps {before : Tracked} (stream : ℕ)
    (tracked : before.host.hasUntrackedLaunch = false) :
    Steps (waitForPreviousLaunchOnStream cuda stream) (waitOps before.host stream) before
      before.host := by
  unfold waitForPreviousLaunchOnStream waitOps
  refine ensures_get_bind ?_
  simp only [tracked, Bool.false_eq_true, if_false, pure_bind]
  by_cases launched : before.host.hasLaunch = true
  · simp only [launched, if_true]
    exact (steps_check .waitDevice before).bind (.refl _) fun _ =>
      steps_submit_check .streamWaitEvent _ _
  · simp only [launched, Bool.false_eq_true, if_false]
    exact steps_pure () before

theorem ensureCompletionEvents_steps (before : Tracked) :
    Steps (onHost (ensureCompletionEvents cuda.status)) [] before
      { before.host with completionEvent := true } := by
  refine steps_onHost ?_
  generalize before.host = state
  unfold ensureCompletionEvents
  refine ((cudaCheckThrow_ensures .eventDevice state).imp (fun _ _ => And.left) ?_).bind ?_
  · rintro _ rfl
    rfl
  rintro _ _ rfl
  refine ensures_get_bind ?_
  rename_i state
  cases created : state.completionEvent
  · simp only [Bool.not_false, if_true]
    refine ((cudaCheckThrow_ensures .eventCreate state).imp (fun _ _ => And.left) ?_).bind ?_
    · rintro _ rfl
      rfl
    rintro _ _ rfl
    exact ensures_modify rfl
  · simp only [Bool.not_true, Bool.false_eq_true, if_false]
    refine ensures_pure ?_
    obtain ⟨⟩ := state
    simp_all

theorem recordCompletion_steps (stream : ℕ) (before : Tracked)
    (created : before.host.completionEvent = true) :
    Steps (recordCompletion cuda stream) [⟨stream, .record ()⟩] before
      (afterLaunch before.host) := by
  refine steps_submit ?_
  unfold Communicator.recordCompletion
  by_cases recorded : cuda.status .eventRecord = .success
  · simp only [recorded, ne_eq, not_true_eq_false, if_false]
    refine ensures_modify ⟨?_, trivial⟩
    simp [afterLaunch, created]
  · simp only [recorded, ne_eq, not_false_eq_true, if_true]
    refine Ensures.bind (ensures_modify_eq _) ?_
    rintro _ _ rfl
    exact ensures_throw_bind ⟨rfl, rfl, rfl, rfl, rfl, id⟩

theorem launchRingSimple_steps (stream : ℕ) (before : Tracked) :
    Steps (launchRingSimple cuda stream) [⟨stream, .work⟩, ⟨stream, .record ()⟩] before
      (afterLaunch before.host) := by
  unfold launchRingSimple
  refine (ensureCompletionEvents_steps before).bind ⟨rfl, rfl, rfl, rfl, rfl, fun _ => rfl⟩
    fun _ => ?_
  refine (steps_check .launchDevice _).bind (.refl _) fun _ => ?_
  rw [← bind_assoc]
  exact (steps_submit_check .launch ⟨stream, .work⟩ _).bind (.refl _) fun _ =>
    recordCompletion_steps stream _ rfl

theorem enqueue_steps {before : Tracked} (stream : ℕ)
    (tracked : before.host.hasUntrackedLaunch = false) :
    Steps (enqueue cuda stream) (script before.host stream) before
      (afterLaunch { before.host with controlInitialized := true }) := by
  unfold enqueue
  refine (waitForPreviousLaunchOnStream_steps stream tracked).bind (.refl _) fun _ => ?_
  refine ensures_get_bind ?_
  have control : Steps
      (if !before.host.controlInitialized then
        onHost (modify fun state => { state with controlInitialized := true }) else pure ()) []
      ⟨before.host, before.log ++ waitOps before.host stream, before.insideTry⟩
      { before.host with controlInitialized := true } := by
    cases initialized : before.host.controlInitialized
    · exact steps_onHost (ensures_modify rfl)
    · simp only [Bool.not_true, Bool.false_eq_true, if_false]
      have same : before.host = { before.host with controlInitialized := true } := by
        rw [← initialized]
      exact same ▸ steps_pure () _
  exact control.bind ⟨rfl, rfl, rfl, rfl, rfl, id⟩ fun _ => launchRingSimple_steps stream _

/-- The members that track launches are the same. -/
structure SameTracking (before after : State) : Prop where
  completionEvent : after.completionEvent = before.completionEvent
  completionRecorded : after.completionRecorded = before.completionRecorded
  fallbackStream : after.fallbackStream = before.fallbackStream
  fallbackInFlight : after.fallbackInFlight = before.fallbackInFlight
  hasLaunch : after.hasLaunch = before.hasLaunch
  hasUntrackedLaunch : after.hasUntrackedLaunch = before.hasUntrackedLaunch

@[refl] theorem SameTracking.refl (state : State) : SameTracking state state :=
  ⟨rfl, rfl, rfl, rfl, rfl, rfl⟩

theorem SameTracking.trans {first second third : State} (earlier : SameTracking first second)
    (later : SameTracking second third) : SameTracking first third where
  completionEvent := later.completionEvent.trans earlier.completionEvent
  completionRecorded := later.completionRecorded.trans earlier.completionRecorded
  fallbackStream := later.fallbackStream.trans earlier.fallbackStream
  fallbackInFlight := later.fallbackInFlight.trans earlier.fallbackInFlight
  hasLaunch := later.hasLaunch.trans earlier.hasLaunch
  hasUntrackedLaunch := later.hasUntrackedLaunch.trans earlier.hasUntrackedLaunch

/-- FIFO storage was not replaced, or every launch is tracked and the completion event of the last
one, if there is one, was found complete. -/
def ReplacedSafely (cuda : Cuda) (before after : State) : Prop :=
  after.slotElems ≠ before.slotElems →
    before.hasUntrackedLaunch = false ∧
      (before.hasLaunch = true → cuda.status .eventQuery = .success)

theorem requirePreviousLaunchComplete_ensures (state : State) :
    Ensures (requirePreviousLaunchComplete cuda.status) state
      (fun _ next => next = state ∧ state.hasUntrackedLaunch = false ∧
        (state.hasLaunch = true → cuda.status .eventQuery = .success))
      (fun next => next = state) := by
  unfold requirePreviousLaunchComplete
  refine ensures_get_bind ?_
  cases untracked : state.hasUntrackedLaunch
  · cases launched : state.hasLaunch
    · exact ensures_pure ⟨rfl, rfl, by simp⟩
    · simp only [Bool.false_eq_true, if_false, if_true]
      refine ((cudaCheckThrow_ensures .queryDevice state).imp (fun _ _ => And.left)
        fun _ => id).bind ?_
      rintro _ _ rfl
      by_cases running : cuda.status .eventQuery = .notReady
      · simp only [running, if_true]
        exact ensures_throw rfl
      · simp only [running, if_false]
        refine (cudaCheckThrow_ensures .eventQuery _).imp ?_ fun _ => id
        rintro _ _ ⟨rfl, ready⟩
        exact ⟨rfl, trivial, fun _ => ready⟩
  · exact ensures_throw rfl

theorem ensureFifoBuffers_ensures (fifoBytes : ℕ) (dtype : DType) (state : State) :
    Ensures (ensureFifoBuffers cuda.status fifoBytes dtype) state
      (fun _ next => SameTracking state next ∧ ReplacedSafely cuda state next)
      (fun next => next = state) := by
  unfold ensureFifoBuffers
  refine ensures_get_bind ?_
  by_cases large : stepElems fifoBytes dtype ≤ state.slotElems dtype
  · simp only [large, not_true_eq_false, if_false]
    exact ensures_pure ⟨.refl _, fun changed => absurd rfl changed⟩
  · simp only [large, not_false_eq_true, if_true]
    refine (requirePreviousLaunchComplete_ensures state).bind ?_
    rintro _ _ ⟨rfl, complete⟩
    exact ensures_modify ⟨⟨rfl, rfl, rfl, rfl, rfl, rfl⟩, fun _ => complete⟩

/-- The call threw before its `try` block. -/
structure Rejected (before after : Tracked) : Prop where
  insideTry : after.insideTry = false
  log : after.log = before.log
  tracking : SameTracking before.host after.host

/-- The call threw inside its `try` block. -/
structure Failed (stream : ℕ) (before after : Tracked) : Prop where
  tracked : before.host.hasUntrackedLaunch = false
  insideTry : after.insideTry = true
  enqueued : ∃ new, new <+: script before.host stream ∧ after.log = before.log ++ new
  hasUntrackedLaunch : after.host.hasUntrackedLaunch = true
  fallbackStream : after.host.fallbackStream = stream
  fallbackInFlight : after.host.fallbackInFlight = true
  completionRecorded : after.host.completionRecorded = before.host.completionRecorded
  completionEvent : before.host.completionEvent = true → after.host.completionEvent = true

/-- The call returned. -/
structure Returned (stream : ℕ) (before after : Tracked) : Prop where
  tracked : before.host.hasUntrackedLaunch = false
  log : after.log = before.log ++ script before.host stream
  hasUntrackedLaunch : after.host.hasUntrackedLaunch = false
  hasLaunch : after.host.hasLaunch = true
  completionRecorded : after.host.completionRecorded = true
  completionEvent : after.host.completionEvent = true

theorem script_congr {before after : State} (same : after.hasLaunch = before.hasLaunch)
    (stream : ℕ) : script after stream = script before stream := by
  simp [script, waitOps, same]

theorem runTyped_ensures (fifoBytes : ℕ) (dtype : DType) (stream : ℕ) {before : Tracked}
    (outside : before.insideTry = false) :
    Ensures (runTyped cuda fifoBytes dtype stream) before
      (fun _ after => Returned stream before after ∧ ReplacedSafely cuda before.host after.host)
      (fun after => (Rejected before after ∨ Failed stream before after) ∧
        ReplacedSafely cuda before.host after.host) := by
  unfold runTyped
  refine ((ensures_onHost before (ensureFifoBuffers_ensures fifoBytes dtype before.host)).imp
    (fun _ _ returned => returned) ?_).bind ?_
  · rintro _ ⟨_, rfl, rfl⟩
    exact ⟨.inl ⟨outside, rfl, .refl _⟩, fun changed => absurd rfl changed⟩
  rintro _ _ ⟨host, ⟨tracking, replaced⟩, rfl⟩
  refine ensures_get_bind ?_
  cases untracked : host.hasUntrackedLaunch
  · simp only [Bool.false_eq_true, if_false, pure_bind]
    have tracked : before.host.hasUntrackedLaunch = false := by
      rw [← tracking.hasUntrackedLaunch, untracked]
    refine Ensures.bind (ensures_onHost_modify _ _) ?_
    rintro _ _ rfl
    refine Ensures.bind (ensures_modify_eq _) ?_
    rintro _ _ rfl
    have same : script (host.track stream) stream = script before.host stream :=
      script_congr tracking.hasLaunch stream
    refine Ensures.tryCatch ((enqueue_steps stream untracked).imp ?_ fun _ => id) ?_
    · rintro _ _ rfl
      exact ⟨⟨tracked, by rw [← same], untracked, rfl, rfl, rfl⟩, replaced⟩
    · rintro error after ⟨kept, insideTry, new, within, log⟩
      rw [same] at within
      refine Ensures.bind (ensures_onHost_modify _ _) ?_
      rintro _ _ rfl
      refine ensures_throw ⟨.inr ?_, ?_⟩
      · exact ⟨tracked, insideTry, ⟨new, within, log⟩, rfl, kept.fallbackStream,
          kept.fallbackInFlight, kept.completionRecorded.trans tracking.completionRecorded,
          fun created => kept.completionEvent (tracking.completionEvent.trans created)⟩
      · intro changed
        refine replaced fun unchanged => changed ?_
        rw [← unchanged]
        exact kept.slotElems
  · simp only [if_true]
    exact ensures_throw_bind ⟨.inl ⟨outside, rfl, tracking⟩, replaced⟩

theorem ensureBf16DevicesValidated_ensures (state : State) :
    Ensures (ensureBf16DevicesValidated cuda.status) state
      (fun _ next => SameTracking state next ∧ next.slotElems = state.slotElems)
      (fun next => next = state) := by
  unfold ensureBf16DevicesValidated
  refine ensures_get_bind ?_
  cases state.bf16DevicesValidated
  · simp only [Bool.not_false, if_true]
    refine ((cudaCheckThrow_ensures .bf16Devices state).imp (fun _ _ => And.left)
      fun _ => id).bind ?_
    rintro _ _ rfl
    exact ensures_modify ⟨⟨rfl, rfl, rfl, rfl, rfl, rfl⟩, rfl⟩
  · exact ensures_pure ⟨.refl _, rfl⟩

section Widen

variable {stream : ℕ} {before middle after : Tracked}

theorem Returned.widen (returned : Returned stream middle after)
    (tracking : SameTracking before.host middle.host) (log : middle.log = before.log) :
    Returned stream before after :=
  { returned with
    tracked := tracking.hasUntrackedLaunch ▸ returned.tracked
    log := by rw [returned.log, log, script_congr tracking.hasLaunch] }

theorem Rejected.widen (rejected : Rejected middle after)
    (tracking : SameTracking before.host middle.host) (log : middle.log = before.log) :
    Rejected before after :=
  ⟨rejected.insideTry, rejected.log.trans log, tracking.trans rejected.tracking⟩

theorem Failed.widen (failed : Failed stream middle after)
    (tracking : SameTracking before.host middle.host) (log : middle.log = before.log) :
    Failed stream before after :=
  { failed with
    tracked := tracking.hasUntrackedLaunch ▸ failed.tracked
    enqueued := by rw [← script_congr tracking.hasLaunch, ← log]; exact failed.enqueued
    completionRecorded := failed.completionRecorded.trans tracking.completionRecorded
    completionEvent := fun created =>
      failed.completionEvent (tracking.completionEvent.trans created) }

theorem ReplacedSafely.widen {before middle after : State}
    (replaced : ReplacedSafely cuda middle after) (tracking : SameTracking before middle)
    (slots : middle.slotElems = before.slotElems) : ReplacedSafely cuda before after := by
  intro changed
  obtain ⟨tracked, ready⟩ := replaced (by rwa [slots])
  exact ⟨tracking.hasUntrackedLaunch ▸ tracked, tracking.hasLaunch ▸ ready⟩

end Widen

/-- Every collective call returns, throws before its `try` block, or throws inside it. -/
theorem collective_ensures (cuda : Cuda) (kRanks fifoBytes : ℕ) (asyncError : Option String)
    (call : Call) (before : Tracked) :
    Ensures (collective cuda kRanks fifoBytes asyncError call) before
      (fun _ after => Returned call.buffers.stream before after ∧
        ReplacedSafely cuda before.host after.host)
      (fun after => (Rejected before after ∨ Failed call.buffers.stream before after) ∧
        ReplacedSafely cuda before.host after.host) := by
  unfold collective
  refine Ensures.bind (ensures_modify_eq _) ?_
  rintro _ _ rfl
  have rejected (host : State) (tracking : SameTracking before.host host)
      (slots : host.slotElems = before.host.slotElems) :
      (Rejected before ⟨host, before.log, false⟩ ∨
        Failed call.buffers.stream before ⟨host, before.log, false⟩) ∧
          ReplacedSafely cuda before.host host :=
    ⟨.inl ⟨rfl, rfl, tracking⟩, fun changed => absurd slots changed⟩
  cases asyncError with
  | some message =>
    dsimp only
    exact ensures_throw_bind (rejected before.host (.refl _) rfl)
  | none =>
    cases validateArgs kRanks call with
    | error message =>
      simp only [pure_bind]
      exact ensures_throw_bind (rejected before.host (.refl _) rfl)
    | ok _ =>
      have devices : Ensures
          (if call.dtype = .bfloat16 then onHost (ensureBf16DevicesValidated cuda.status)
            else pure ()) ⟨before.host, before.log, false⟩
          (fun _ next => ∃ host, SameTracking before.host host ∧
            host.slotElems = before.host.slotElems ∧ next = ⟨host, before.log, false⟩)
          (fun after => (Rejected before after ∨ Failed call.buffers.stream before after) ∧
            ReplacedSafely cuda before.host after.host) := by
        split
        · refine (ensures_onHost ⟨before.host, before.log, false⟩
            (ensureBf16DevicesValidated_ensures before.host)).imp ?_ ?_
          · rintro _ _ ⟨host, ⟨tracking, slots⟩, rfl⟩
            exact ⟨host, tracking, slots, rfl⟩
          · rintro _ ⟨_, rfl, rfl⟩
            exact rejected before.host (.refl _) rfl
        · exact ensures_pure ⟨before.host, .refl _, rfl, rfl⟩
      refine devices.bind ?_
      rintro _ _ ⟨host, tracking, slots, rfl⟩
      refine (runTyped_ensures fifoBytes call.dtype call.buffers.stream rfl).imp ?_ ?_
      · rintro _ after ⟨returned, replaced⟩
        exact ⟨returned.widen tracking rfl, replaced.widen tracking slots⟩
      · rintro after ⟨threw, replaced⟩
        refine ⟨?_, replaced.widen tracking slots⟩
        exact threw.imp (fun threw => threw.widen tracking rfl) fun threw =>
          threw.widen tracking rfl

end Outcome

end Lifetime
end Communicator
end NanoNccl
