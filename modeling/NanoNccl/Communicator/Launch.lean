import Mathlib.Order.Lattice
import Mathlib.Logic.Function.Basic
import NanoNccl.Communicator.Args
import NanoNccl.Lib.Throwing

/-!
# Launching collectives on a distributed communicator

`run_typed` of a communicator with one local rank: the per-dtype FIFO resources are created on
first use, the call waits on the stream for the previous launch, launches its kernel and records a
completion event. Every CUDA call of that path may fail; the answers are given by a function, one
entry for each place of the source that asks.

Creating resources requires the previous launch to be complete, which the host learns from
`cudaEventQuery`. Which calls are accepted therefore depends on when the device finishes.
-/

namespace NanoNccl
namespace Communicator

/-- The answers of a CUDA call. -/
inductive CudaStatus where
  /-- `cudaSuccess` -/
  | success
  /-- `cudaErrorNotReady` -/
  | notReady
  /-- Any other error. -/
  | failure
  deriving DecidableEq, Repr

/-- The CUDA calls of one collective call, by the place that makes them. -/
inductive CudaCall where
  /-- Device properties read by `require_bf16_devices`. -/
  | bf16Devices
  /-- `cudaSetDevice` in `require_previous_launch_complete`. -/
  | queryDevice
  /-- `cudaEventQuery` on the completion event. -/
  | eventQuery
  /-- `cudaSetDevice` in `wait_for_previous_launch_on_stream`. -/
  | waitDevice
  /-- `cudaStreamWaitEvent` on the completion event. -/
  | streamWaitEvent
  /-- `cudaSetDevice` in `ensure_completion_events`. -/
  | eventDevice
  /-- `cudaEventCreateWithFlags` in `ensure_completion_events`. -/
  | eventCreate
  /-- `cudaSetDevice` before the launch. -/
  | launchDevice
  /-- `cudaGetLastError` after the launch. -/
  | launch
  /-- `cudaEventRecord` in `record_completion`. -/
  | eventRecord
  deriving DecidableEq, Repr

/-- What a collective call throws. -/
inductive Error where
  /-- A `std::runtime_error` with this text. -/
  | runtime (message : String)
  /-- A failed CUDA call. -/
  | cuda (call : CudaCall) (status : CudaStatus)
  deriving DecidableEq, Repr

/-- The members of `Communicator::Impl` a collective call reads and writes, for a distributed
communicator with its one local rank. -/
structure State where
  /-- `slot_elems` of the FIFO resources of each element type. -/
  slotElems : DType → ℕ
  /-- `bf16_devices_validated_` -/
  bf16DevicesValidated : Bool
  /-- `control_initialized_` -/
  controlInitialized : Bool
  /-- `completion_events_[0]` exists. -/
  completionEvent : Bool
  /-- `completion_recorded_[0]` -/
  completionRecorded : Bool
  /-- `fallback_streams_[0]` -/
  fallbackStream : ℕ
  /-- `fallback_in_flight_[0]` -/
  fallbackInFlight : Bool
  /-- `has_launch_` -/
  hasLaunch : Bool
  /-- `has_untracked_launch_` -/
  hasUntrackedLaunch : Bool
  /-- Number of completion events recorded so far. -/
  launches : ℕ

/-- The communicator right after construction. -/
def initial : State where
  slotElems := fun _ => 0
  bf16DevicesValidated := false
  controlInitialized := false
  completionEvent := false
  completionRecorded := false
  fallbackStream := 0
  fallbackInFlight := false
  hasLaunch := false
  hasUntrackedLaunch := false
  launches := 0

/-- Replace the FIFO resources of one element type. -/
def State.grow (state : State) (dtype : DType) (slotElems : ℕ) : State :=
  { state with slotElems := Function.update state.slotElems dtype slotElems }

/-- Make a stream the fallback of the local rank. -/
def State.track (state : State) (stream : ℕ) : State :=
  { state with fallbackStream := stream, fallbackInFlight := true }

/-- A piece of a collective call: it may throw, and what it wrote before stays written. -/
abbrev Action := ExceptT Error (StateM State)

namespace Action

variable {α β : Type}

/-- Run a piece of a call from a state. -/
def execute (action : Action α) (state : State) : Except Error α × State :=
  action.run.run state

@[simp] theorem execute_pure (value : α) (state : State) :
    execute (pure value) state = (.ok value, state) := rfl

@[simp] theorem execute_throw (error : Error) (state : State) :
    execute (throw error : Action α) state = (.error error, state) := rfl

@[simp] theorem execute_get_bind (next : State → Action β) (state : State) :
    execute (get >>= next) state = execute (next state) state := rfl

@[simp] theorem execute_modify (change : State → State) (state : State) :
    execute (modify change) state = (.ok (), change state) := rfl

theorem execute_bind (first : Action α) (next : α → Action β) (state : State) :
    execute (first >>= next) state =
      match execute first state with
      | (.ok value, middle) => execute (next value) middle
      | (.error error, middle) => (.error error, middle) := by
  have ran : execute first state = Throwing.execute first state := rfl
  refine (Throwing.execute_bind first next state).trans ?_
  rw [ran]
  rcases Throwing.execute first state with ⟨_ | _, _⟩ <;> rfl

theorem execute_bind_ok {first : Action α} {next : α → Action β} {state middle : State} {value : α}
    (returns : execute first state = (.ok value, middle)) :
    execute (first >>= next) state = execute (next value) middle := by
  rw [execute_bind, returns]

theorem execute_bind_error {first : Action α} {next : α → Action β} {state middle : State}
    {error : Error} (throws : execute first state = (.error error, middle)) :
    execute (first >>= next) state = (.error error, middle) := by
  rw [execute_bind, throws]

/-- A `try` block that completes is not seen by its handler. -/
theorem execute_tryCatch_ok {body : Action α} {handler : Error → Action α} {state final : State}
    {value : α} (returns : execute body state = (.ok value, final)) :
    execute (tryCatch body handler) state = (.ok value, final) := by
  have ran : Throwing.execute body state = (.ok value, final) := returns
  exact (Throwing.execute_tryCatch body handler state).trans (by rw [ran])

end Action

section

variable (cuda : CudaCall → CudaStatus)

/-- `CUDA_CHECK_THROW` around one CUDA call. -/
def cudaCheckThrow (call : CudaCall) : Action Unit :=
  if cuda call = .success then pure () else throw (.cuda call (cuda call))

def ensureBf16DevicesValidated : Action Unit := do
  if !(← get).bf16DevicesValidated then
    cudaCheckThrow cuda .bf16Devices
    modify fun state => { state with bf16DevicesValidated := true }

def requirePreviousLaunchComplete : Action Unit := do
  let state ← get
  if state.hasUntrackedLaunch then
    throw (.runtime "cannot grow communicator FIFO after completion tracking failed")
  if state.hasLaunch then
    cudaCheckThrow cuda .queryDevice
    if cuda .eventQuery = .notReady then
      throw (.runtime "cannot grow communicator FIFO while a prior collective is running")
    cudaCheckThrow cuda .eventQuery

/-- In a distributed communicator no edge has both ends local, so the replacement holds no buffers
and its slot size is that of one Simple step, whatever the count. -/
def ensureFifoBuffers (fifoBytes : ℕ) (dtype : DType) : Action Unit := do
  let requiredSlotElems := stepElems fifoBytes dtype
  if ¬ requiredSlotElems ≤ (← get).slotElems dtype then
    requirePreviousLaunchComplete cuda
    modify fun state => state.grow dtype requiredSlotElems

def waitForPreviousLaunchOnStream : Action Unit := do
  let state ← get
  if state.hasUntrackedLaunch then
    throw (.runtime "cannot launch collective after completion tracking failed")
  if state.hasLaunch then
    cudaCheckThrow cuda .waitDevice
    cudaCheckThrow cuda .streamWaitEvent

def beginFallbackTracking (stream : ℕ) : Action Unit :=
  modify fun state => state.track stream

def ensureCompletionEvents : Action Unit := do
  cudaCheckThrow cuda .eventDevice
  if !(← get).completionEvent then
    cudaCheckThrow cuda .eventCreate
    modify fun state => { state with completionEvent := true }

def recordCompletion : Action Unit := do
  if cuda .eventRecord ≠ .success then
    modify fun state => { state with hasUntrackedLaunch := true }
    throw (.cuda .eventRecord (cuda .eventRecord))
  modify fun state =>
    { state with
      completionRecorded := true
      fallbackInFlight := false
      hasLaunch := true
      launches := state.launches + 1 }

def launchRingSimple : Action Unit := do
  ensureCompletionEvents cuda
  cudaCheckThrow cuda .launchDevice
  cudaCheckThrow cuda .launch
  recordCompletion cuda

/-- The `try` block of `run_typed`. `reset_control` only clears host memory here: a distributed
communicator has no `p2p_steps_`. -/
def enqueue : Action Unit := do
  waitForPreviousLaunchOnStream cuda
  if !(← get).controlInitialized then
    modify fun state => { state with controlInitialized := true }
  launchRingSimple cuda

def runTyped (fifoBytes : ℕ) (dtype : DType) (stream : ℕ) : Action Unit := do
  ensureFifoBuffers cuda fifoBytes dtype
  if (← get).hasUntrackedLaunch then
    throw (.runtime "cannot launch collective after completion tracking failed")
  beginFallbackTracking stream
  tryCatch (enqueue cuda) fun error => do
    modify fun state => { state with hasUntrackedLaunch := true }
    throw error

/-- One collective call of a communicator whose proxies have not failed. -/
def collective (kRanks fifoBytes : ℕ) (call : Call) : Action Unit := do
  match validateArgs kRanks call with
  | .error message => throw (.runtime message)
  | .ok _ =>
      if call.dtype = .bfloat16 then ensureBf16DevicesValidated cuda
      runTyped cuda fifoBytes call.dtype call.buffers.stream

end

/-- No CUDA call fails; only the event query may find the device busy. -/
structure Healthy (cuda : CudaCall → CudaStatus) : Prop where
  /-- The completion event is ready or not. -/
  query : cuda .eventQuery = .success ∨ cuda .eventQuery = .notReady
  /-- Every other call succeeds. -/
  others : ∀ call, call ≠ .eventQuery → cuda call = .success

section

variable {cuda : CudaCall → CudaStatus} {state : State}

theorem cudaCheckThrow_of_success {call : CudaCall} (answer : cuda call = .success) :
    cudaCheckThrow cuda call = pure () := by
  simp [cudaCheckThrow, answer]

theorem Healthy.check (healthy : Healthy cuda) {call : CudaCall} (other : call ≠ .eventQuery) :
    cudaCheckThrow cuda call = pure () :=
  cudaCheckThrow_of_success (healthy.others call other)

/-- The text of the rejection. -/
def priorCollectiveRunning : Error :=
  .runtime "cannot grow communicator FIFO while a prior collective is running"

theorem requirePreviousLaunchComplete_execute (healthy : Healthy cuda)
    (tracked : state.hasUntrackedLaunch = false) :
    (requirePreviousLaunchComplete cuda).execute state =
      (if state.hasLaunch = true ∧ cuda .eventQuery = .notReady then .error priorCollectiveRunning
      else .ok (), state) := by
  have device : cudaCheckThrow cuda .queryDevice = pure () := healthy.check (by simp)
  unfold requirePreviousLaunchComplete
  rcases healthy.query with ready | busy
  · have query := cudaCheckThrow_of_success ready
    cases state.hasLaunch <;> simp [tracked, device, query, ready]
  · cases launched : state.hasLaunch <;>
      simp [tracked, launched, device, busy, priorCollectiveRunning]

/-- The call has to create FIFO resources while the previous launch may still be running. -/
def Blocked (cuda : CudaCall → CudaStatus) (fifoBytes : ℕ) (state : State) (dtype : DType) : Prop :=
  state.slotElems dtype < stepElems fifoBytes dtype ∧ state.hasLaunch = true ∧
    cuda .eventQuery = .notReady

theorem ensureFifoBuffers_blocked (healthy : Healthy cuda)
    (tracked : state.hasUntrackedLaunch = false) {fifoBytes : ℕ} {dtype : DType}
    (blocked : Blocked cuda fifoBytes state dtype) :
    (ensureFifoBuffers cuda fifoBytes dtype).execute state =
      (.error priorCollectiveRunning, state) := by
  obtain ⟨small, launched, busy⟩ := blocked
  unfold ensureFifoBuffers
  simp only [Action.execute_get_bind, not_le, small, if_true]
  apply Action.execute_bind_error
  rw [requirePreviousLaunchComplete_execute healthy tracked, if_pos ⟨launched, busy⟩]

theorem ensureFifoBuffers_ok (healthy : Healthy cuda)
    (tracked : state.hasUntrackedLaunch = false) {fifoBytes : ℕ} {dtype : DType}
    (free : ¬Blocked cuda fifoBytes state dtype) :
    (ensureFifoBuffers cuda fifoBytes dtype).execute state =
      (.ok (), state.grow dtype (max (state.slotElems dtype) (stepElems fifoBytes dtype))) := by
  unfold ensureFifoBuffers
  by_cases small : state.slotElems dtype < stepElems fifoBytes dtype
  · simp only [Action.execute_get_bind, not_le, small, if_true]
    have complete : (requirePreviousLaunchComplete cuda).execute state = (.ok (), state) := by
      rw [requirePreviousLaunchComplete_execute healthy tracked, if_neg]
      exact fun running => free ⟨small, running⟩
    rw [Action.execute_bind_ok complete, Action.execute_modify, max_eq_right small.le]
  · simp only [Action.execute_get_bind, not_le, small, if_false, Action.execute_pure]
    rw [max_eq_left (not_lt.mp small), State.grow, Function.update_eq_self]

theorem waitForPreviousLaunchOnStream_execute (healthy : Healthy cuda)
    (tracked : state.hasUntrackedLaunch = false) :
    (waitForPreviousLaunchOnStream cuda).execute state = (.ok (), state) := by
  have device : cudaCheckThrow cuda .waitDevice = pure () := healthy.check (by simp)
  have wait : cudaCheckThrow cuda .streamWaitEvent = pure () := healthy.check (by simp)
  unfold waitForPreviousLaunchOnStream
  cases state.hasLaunch <;> simp [tracked, device, wait]

theorem ensureCompletionEvents_execute (healthy : Healthy cuda) :
    (ensureCompletionEvents cuda).execute state =
      (.ok (), { state with completionEvent := true }) := by
  have device : cudaCheckThrow cuda .eventDevice = pure () := healthy.check (by simp)
  have create : cudaCheckThrow cuda .eventCreate = pure () := healthy.check (by simp)
  unfold ensureCompletionEvents
  cases created : state.completionEvent
  · simp [device, create, created]
  · obtain ⟨⟩ := state
    simp_all

theorem launchRingSimple_execute (healthy : Healthy cuda) :
    (launchRingSimple cuda).execute state =
      (.ok (),
        { state with
          completionEvent := true
          completionRecorded := true
          fallbackInFlight := false
          hasLaunch := true
          launches := state.launches + 1 }) := by
  have device : cudaCheckThrow cuda .launchDevice = pure () := healthy.check (by simp)
  have launch : cudaCheckThrow cuda .launch = pure () := healthy.check (by simp)
  have record : cuda .eventRecord = .success := healthy.others .eventRecord (by simp)
  unfold launchRingSimple
  rw [Action.execute_bind_ok (ensureCompletionEvents_execute healthy)]
  simp [device, launch, record, recordCompletion]

/-- What an enqueued call leaves behind, as far as later calls see it. -/
structure Launched (state next : State) : Prop where
  /-- The launch has its completion event. -/
  tracked : next.hasUntrackedLaunch = false
  /-- There is a launch to wait for. -/
  launched : next.hasLaunch = true
  /-- The completion event counts one more launch. -/
  launches : next.launches = state.launches + 1

theorem enqueue_execute (healthy : Healthy cuda) (tracked : state.hasUntrackedLaunch = false) :
    ∃ next, (enqueue cuda).execute state = (.ok (), next) ∧ Launched state next ∧
      next.slotElems = state.slotElems := by
  unfold enqueue
  rw [Action.execute_bind_ok (waitForPreviousLaunchOnStream_execute healthy tracked),
    Action.execute_get_bind]
  cases state.controlInitialized
  · simp only [Bool.not_false, if_true]
    rw [Action.execute_bind_ok (Action.execute_modify _ _), launchRingSimple_execute healthy]
    exact ⟨_, rfl, ⟨tracked, rfl, rfl⟩, rfl⟩
  · simp only [Bool.not_true, Bool.false_eq_true, if_false]
    rw [launchRingSimple_execute healthy]
    exact ⟨_, rfl, ⟨tracked, rfl, rfl⟩, rfl⟩

/-- The resources of an element type after a call that uses it. -/
def slotElemsAfter (fifoBytes : ℕ) (slotElems : DType → ℕ) (dtype : DType) : DType → ℕ :=
  Function.update slotElems dtype (max (slotElems dtype) (stepElems fifoBytes dtype))

/-- A call whose FIFO resources exist or may be created is enqueued. -/
theorem runTyped_ok (healthy : Healthy cuda) (tracked : state.hasUntrackedLaunch = false)
    {fifoBytes : ℕ} {dtype : DType} (free : ¬Blocked cuda fifoBytes state dtype) (stream : ℕ) :
    ∃ next, (runTyped cuda fifoBytes dtype stream).execute state = (.ok (), next) ∧
      Launched state next ∧
      next.slotElems = slotElemsAfter fifoBytes state.slotElems dtype := by
  unfold runTyped
  rw [Action.execute_bind_ok (ensureFifoBuffers_ok healthy tracked free), Action.execute_get_bind,
    if_neg (by simp [State.grow, tracked])]
  have begun := Action.execute_modify (fun state => state.track stream)
    (state.grow dtype (max (state.slotElems dtype) (stepElems fifoBytes dtype)))
  have still_tracked : ((state.grow dtype (max (state.slotElems dtype)
      (stepElems fifoBytes dtype))).track stream).hasUntrackedLaunch = false := tracked
  obtain ⟨next, returns, ⟨tracked, launched, launches⟩, slots⟩ :=
    enqueue_execute healthy still_tracked
  refine ⟨next, ?_, ⟨tracked, launched, launches⟩, slots⟩
  exact (Action.execute_bind_ok begun).trans (Action.execute_tryCatch_ok returns)

/-- A blocked call is rejected and changes nothing. -/
theorem runTyped_blocked (healthy : Healthy cuda) (tracked : state.hasUntrackedLaunch = false)
    {fifoBytes : ℕ} {dtype : DType} (blocked : Blocked cuda fifoBytes state dtype) (stream : ℕ) :
    (runTyped cuda fifoBytes dtype stream).execute state =
      (.error priorCollectiveRunning, state) := by
  unfold runTyped
  exact Action.execute_bind_error (ensureFifoBuffers_blocked healthy tracked blocked)

theorem ensureBf16DevicesValidated_execute (healthy : Healthy cuda) :
    (ensureBf16DevicesValidated cuda).execute state =
      (.ok (), { state with bf16DevicesValidated := true }) := by
  have devices : cudaCheckThrow cuda .bf16Devices = pure () := healthy.check (by simp)
  unfold ensureBf16DevicesValidated
  cases validated : state.bf16DevicesValidated
  · simp [devices, validated]
  · obtain ⟨⟩ := state
    simp_all

/-- The device check of a BFloat16 call. -/
def State.validated (state : State) (dtype : DType) : State :=
  if dtype = .bfloat16 then { state with bf16DevicesValidated := true } else state

theorem collective_execute (healthy : Healthy cuda) {kRanks fifoBytes : ℕ} {call : Call}
    (valid : validateArgs kRanks call = .ok ()) :
    (collective cuda kRanks fifoBytes call).execute state =
      (runTyped cuda fifoBytes call.dtype call.buffers.stream).execute
        (state.validated call.dtype) := by
  unfold collective State.validated
  rw [valid]
  by_cases wide : call.dtype = .bfloat16
  · simp only [wide, if_true]
    exact Action.execute_bind_ok (ensureBf16DevicesValidated_execute healthy)
  · simp [wide]

@[simp] theorem validated_hasUntrackedLaunch (dtype : DType) :
    (state.validated dtype).hasUntrackedLaunch = state.hasUntrackedLaunch := by
  unfold State.validated
  split_ifs <;> rfl

@[simp] theorem validated_hasLaunch (dtype : DType) :
    (state.validated dtype).hasLaunch = state.hasLaunch := by
  unfold State.validated
  split_ifs <;> rfl

@[simp] theorem validated_launches (dtype : DType) :
    (state.validated dtype).launches = state.launches := by
  unfold State.validated
  split_ifs <;> rfl

@[simp] theorem validated_slotElems (dtype : DType) :
    (state.validated dtype).slotElems = state.slotElems := by
  unfold State.validated
  split_ifs <;> rfl

/-- A valid call that is not blocked is enqueued. -/
theorem collective_ok (healthy : Healthy cuda) (tracked : state.hasUntrackedLaunch = false)
    {kRanks fifoBytes : ℕ} {call : Call} (valid : validateArgs kRanks call = .ok ())
    (free : ¬Blocked cuda fifoBytes state call.dtype) :
    ∃ next, (collective cuda kRanks fifoBytes call).execute state = (.ok (), next) ∧
      Launched state next ∧
      next.slotElems = slotElemsAfter fifoBytes state.slotElems call.dtype := by
  rw [collective_execute healthy valid]
  have still_tracked : (state.validated call.dtype).hasUntrackedLaunch = false := by
    simpa using tracked
  have still_free : ¬Blocked cuda fifoBytes (state.validated call.dtype) call.dtype := by
    simpa [Blocked] using free
  obtain ⟨next, returns, ⟨tracked, launched, launches⟩, slots⟩ :=
    runTyped_ok healthy still_tracked still_free call.buffers.stream
  exact ⟨next, returns, ⟨tracked, launched, by simpa using launches⟩, by simpa using slots⟩

/-- A blocked call is rejected, whatever its count, stream and operation. -/
theorem collective_blocked (healthy : Healthy cuda) (tracked : state.hasUntrackedLaunch = false)
    {kRanks fifoBytes : ℕ} {call : Call} (valid : validateArgs kRanks call = .ok ())
    (blocked : Blocked cuda fifoBytes state call.dtype) :
    (collective cuda kRanks fifoBytes call).execute state =
      (.error priorCollectiveRunning, state.validated call.dtype) := by
  rw [collective_execute healthy valid]
  exact runTyped_blocked healthy (by simpa using tracked) (by simpa [Blocked] using blocked)
    call.buffers.stream

end

end Communicator
end NanoNccl
