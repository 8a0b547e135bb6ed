import Mathlib.Order.Monotone.Basic
import NanoNccl.Communicator.Launch

/-!
# Acceptance of collective calls under different device timings

A sequence of valid calls is made on one communicator while its launches complete on the device in
launch order. Two timings of the completions may make the same call accepted in one run and
rejected in the other: the first use of an element type creates its FIFO resources, which the
source refuses while any launch is still running. Sequences in which no call after the first one
brings a new element type are accepted whatever the timing.
-/

namespace NanoNccl
namespace Communicator

/-- When launches complete: launch number `k` is complete for every call at or after position
`finish k` of the sequence. -/
structure Timing where
  /-- The position from which on a launch is complete. -/
  finish : ℕ → ℕ
  /-- Each launch waits for the one before it. -/
  ordered : Monotone finish

/-- CUDA without failures: the completion event, recorded behind the last launch, is ready once
that launch is complete. -/
def Timing.cuda (timing : Timing) (position : ℕ) (state : State) : CudaCall → CudaStatus
  | .eventQuery =>
      if timing.finish (state.launches - 1) ≤ position then .success else .notReady
  | .bf16Devices | .queryDevice | .waitDevice | .streamWaitEvent | .eventDevice | .eventCreate
  | .launchDevice | .launch | .eventRecord => .success

theorem Timing.healthy (timing : Timing) (position : ℕ) (state : State) :
    Healthy (timing.cuda position state) where
  query := by
    unfold Timing.cuda
    split_ifs
    · exact .inl rfl
    · exact .inr rfl
  others := by
    intro call other
    cases call <;> simp_all [Timing.cuda]

/-- Which calls of a sequence are enqueued. -/
def enqueued (kRanks fifoBytes : ℕ) (timing : Timing) : ℕ → State → List Call → List Bool
  | _, _, [] => []
  | position, state, call :: calls =>
      let outcome := (collective (timing.cuda position state) kRanks fifoBytes call).execute state
      outcome.1.isOk :: enqueued kRanks fifoBytes timing (position + 1) outcome.2 calls

/-- The call is the first one, needs no FIFO slot, or uses an element type used before. -/
def Known (fifoBytes : ℕ) (earlier : List Call) (call : Call) : Prop :=
  earlier = [] ∨ stepElems fifoBytes call.dtype = 0 ∨
    ∃ previous ∈ earlier, previous.dtype = call.dtype

/-- No call after the first one is the first use of an element type. -/
def NoLateFirstUse (fifoBytes : ℕ) (calls : List Call) : Prop :=
  ∀ earlier call later, calls = earlier ++ call :: later → Known fifoBytes earlier call

/-- The communicator after the calls of `earlier` were all enqueued. -/
structure Served (fifoBytes : ℕ) (earlier : List Call) (state : State) : Prop where
  /-- No launch escaped its completion event. -/
  tracked : state.hasUntrackedLaunch = false
  /-- There is a previous launch unless this is the first call. -/
  launched : state.hasLaunch = true ↔ earlier ≠ []
  /-- Resources exist for the element types used so far. -/
  used : ∀ call ∈ earlier, stepElems fifoBytes call.dtype ≤ state.slotElems call.dtype
  /-- No other resources exist. -/
  unused : ∀ dtype, (∀ call ∈ earlier, call.dtype ≠ dtype) → state.slotElems dtype = 0

theorem served_initial (fifoBytes : ℕ) : Served fifoBytes [] initial where
  tracked := rfl
  launched := by simp [initial]
  used := by simp
  unused := fun _ _ => rfl

theorem Served.next {fifoBytes : ℕ} {earlier : List Call} {state after : State} {call : Call}
    (served : Served fifoBytes earlier state) (launched : Launched state after)
    (slots : after.slotElems = slotElemsAfter fifoBytes state.slotElems call.dtype) :
    Served fifoBytes (earlier ++ [call]) after where
  tracked := launched.tracked
  launched := by simp [launched.launched]
  used := by
    intro other member
    rw [slots, slotElemsAfter, Function.update_apply]
    split_ifs with same
    · rw [same]
      exact le_max_right _ _
    · rcases List.mem_append.mp member with old | new
      · exact served.used other old
      · exact absurd (congrArg Call.dtype (List.mem_singleton.mp new)) same
  unused := by
    intro dtype fresh
    have other : dtype ≠ call.dtype := fun same => fresh call (by simp) same.symm
    rw [slots, slotElemsAfter, Function.update_of_ne other]
    exact served.unused dtype fun previous member => fresh previous (by simp [member])

/-- A known call is not blocked. -/
theorem Served.free_of_known {fifoBytes : ℕ} {earlier : List Call} {state : State} {call : Call}
    (served : Served fifoBytes earlier state) (known : Known fifoBytes earlier call)
    (cuda : CudaCall → CudaStatus) : ¬Blocked cuda fifoBytes state call.dtype := by
  rintro ⟨small, launched, -⟩
  rcases known with first | nothing | ⟨previous, member, same⟩
  · exact served.launched.mp launched first
  · omega
  · have large := served.used previous member
    rw [same] at large
    omega

/-- A call that is not known and finds the device busy is blocked. -/
theorem Served.blocked_of_not_known {fifoBytes : ℕ} {earlier : List Call} {state : State}
    {call : Call} (served : Served fifoBytes earlier state)
    (unknown : ¬Known fifoBytes earlier call) {cuda : CudaCall → CudaStatus}
    (busy : cuda .eventQuery = .notReady) : Blocked cuda fifoBytes state call.dtype := by
  simp only [Known, not_or, not_exists, not_and] at unknown
  obtain ⟨later, slot, fresh⟩ := unknown
  have empty := served.unused call.dtype fresh
  exact ⟨by omega, served.launched.mpr later, busy⟩

section

variable {kRanks fifoBytes : ℕ} {timing : Timing}

/-- A sequence none of whose calls is blocked is enqueued as a whole. -/
theorem enqueued_of_free {calls : List Call}
    (valid : ∀ call ∈ calls, validateArgs kRanks call = .ok ()) {earlier : List Call}
    {state : State} {position : ℕ} (served : Served fifoBytes earlier state)
    (free : ∀ mid call later, calls = mid ++ call :: later →
      Known fifoBytes (earlier ++ mid) call ∨ ∀ k, timing.finish k = 0) :
    enqueued kRanks fifoBytes timing position state calls = List.replicate calls.length true := by
  induction calls generalizing earlier state position with
  | nil => rfl
  | cons call calls ih =>
      have unblocked : ¬Blocked (timing.cuda position state) fifoBytes state call.dtype := by
        rcases free [] call calls rfl with known | prompt
        · exact served.free_of_known (by simpa using known) _
        · rintro ⟨-, -, busy⟩
          simp [Timing.cuda, prompt] at busy
      obtain ⟨next, returns, launched, slots⟩ := collective_ok (timing.healthy position state)
        served.tracked (valid call (by simp)) unblocked
      rw [enqueued, returns]
      have rest : enqueued kRanks fifoBytes timing (position + 1) next calls =
          List.replicate calls.length true := by
        refine ih (fun other member => valid other (by simp [member]))
          (served.next launched slots) ?_
        intro mid other later split
        simpa using free (call :: mid) other later (by simp [split])
      simp [rest, List.replicate_succ, Except.isOk, Except.toBool]

/-- If a sequence is enqueued as a whole while nothing ever completes, each call is known. -/
theorem known_of_enqueued {calls : List Call}
    (valid : ∀ call ∈ calls, validateArgs kRanks call = .ok ()) {earlier : List Call}
    {state : State} {position : ℕ} (served : Served fifoBytes earlier state)
    (late : ∀ k, position + calls.length ≤ timing.finish k)
    (all : enqueued kRanks fifoBytes timing position state calls =
      List.replicate calls.length true) :
    ∀ mid call later, calls = mid ++ call :: later → Known fifoBytes (earlier ++ mid) call := by
  induction calls generalizing earlier state position with
  | nil => simp
  | cons call calls ih =>
      rw [enqueued, List.length_cons, List.replicate_succ, List.cons.injEq] at all
      obtain ⟨accepted, rest⟩ := all
      have busy : timing.cuda position state .eventQuery = .notReady := by
        have still_running := late (state.launches - 1)
        rw [List.length_cons] at still_running
        rw [Timing.cuda, if_neg (by omega)]
      have known : Known fifoBytes earlier call := by
        by_contra unknown
        rw [collective_blocked (timing.healthy position state) served.tracked
          (valid call (by simp)) (served.blocked_of_not_known unknown busy)] at accepted
        simp [Except.isOk, Except.toBool] at accepted
      obtain ⟨next, returns, launched, slots⟩ := collective_ok (timing.healthy position state)
        served.tracked (valid call (by simp)) (served.free_of_known known _)
      rw [returns] at rest
      intro mid other later split
      cases mid with
      | nil =>
          obtain ⟨rfl, -⟩ : call = other ∧ calls = later := by simpa using split
          simpa using known
      | cons head mid =>
          obtain ⟨rfl, tail⟩ : call = head ∧ calls = mid ++ other :: later := by simpa using split
          have step := ih (fun other member => valid other (by simp [member]))
            (served.next launched slots)
            (fun k => by have := late k; rw [List.length_cons] at this; omega) rest mid other later
            tail
          simpa using step

/-- The same calls are enqueued under every timing exactly when no call after the first one is the
first use of an element type. -/
theorem enqueued_independent_of_timing_iff {calls : List Call}
    (valid : ∀ call ∈ calls, validateArgs kRanks call = .ok ()) :
    (∀ first second : Timing, enqueued kRanks fifoBytes first 0 initial calls =
      enqueued kRanks fifoBytes second 0 initial calls) ↔ NoLateFirstUse fifoBytes calls := by
  constructor
  · intro independent
    let prompt : Timing := ⟨fun _ => 0, monotone_const⟩
    let never : Timing := ⟨fun _ => calls.length, monotone_const⟩
    have all : enqueued kRanks fifoBytes prompt 0 initial calls =
        List.replicate calls.length true :=
      enqueued_of_free valid (served_initial fifoBytes) fun _ _ _ _ => .inr fun _ => rfl
    rw [independent prompt never] at all
    intro earlier call later split
    have known := known_of_enqueued valid (served_initial fifoBytes)
      (fun _ => by simp [never]) all earlier call later split
    simpa using known
  · intro known first second
    have all : ∀ timing : Timing, enqueued kRanks fifoBytes timing 0 initial calls =
        List.replicate calls.length true := by
      intro timing
      refine enqueued_of_free valid (served_initial fifoBytes) ?_
      intro mid call later split
      exact .inl (by simpa using known mid call later split)
    rw [all first, all second]

end

/-- Two calls on separate buffers, in two element types. -/
def mixedCalls : List Call :=
  [.allReduce ⟨4096, 8192, 1⟩ 16 .float .sum, .allReduce ⟨12288, 16384, 1⟩ 16 .float16 .sum]

/-- The second call is enqueued when the first launch is complete, and rejected when it is not. -/
theorem enqueued_depends_on_timing :
    (∀ call ∈ mixedCalls, validateArgs 4 call = .ok ()) ∧
    enqueued 4 kFifoBytes ⟨fun _ => 1, monotone_const⟩ 0 initial mixedCalls = [true, true] ∧
    enqueued 4 kFifoBytes ⟨fun _ => 2, monotone_const⟩ 0 initial mixedCalls = [true, false] := by
  refine ⟨by decide, rfl, rfl⟩

/-- Calls in one element type, of any kind. -/
def uniformCalls : List Call :=
  [.allReduce ⟨4096, 8192, 1⟩ 16 .float .sum, .allGather ⟨12288, 16384, 2⟩ 16 .float,
    .reduceScatter ⟨4096, 8192, 1⟩ 16 .float .max]

theorem enqueued_independent_of_timing_uniform :
    (∀ call ∈ uniformCalls, validateArgs 4 call = .ok ()) ∧
    ∀ first second : Timing, enqueued 4 kFifoBytes first 0 initial uniformCalls =
      enqueued 4 kFifoBytes second 0 initial uniformCalls := by
  have valid : ∀ call ∈ uniformCalls, validateArgs 4 call = .ok () := by decide
  refine ⟨valid, (enqueued_independent_of_timing_iff valid).mpr ?_⟩
  intro earlier call later split
  have floats : ∀ other ∈ uniformCalls, other.dtype = .float := by decide
  cases earlier with
  | nil => exact .inl rfl
  | cons head rest =>
      refine .inr (.inr ⟨head, by simp, ?_⟩)
      rw [floats head (by simp [split]), floats call (by simp [split])]

end Communicator
end NanoNccl
