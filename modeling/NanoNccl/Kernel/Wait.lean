import Mathlib.Data.List.Basic
import NanoNccl.Geometry
import NanoNccl.Lib.Execution

/-!
# The overlapped wait

`wait_recv_ready_and_send_credit` lets thread 0 poll `recv_tail` and thread 1 poll `send_head`
between two barriers. Both test and rewrite one word, `wait_status`, and the whole block returns
what that word holds after the second barrier. A step below is one load or store of a word the
threads or the host share, so that a list of labels is an interleaving.
-/

namespace NanoNccl
namespace OverlappedWait

/-- The two polls: `recv` is the one of thread 0, `send` the one of thread 1. -/
inductive Side
  | recv
  | send
  deriving DecidableEq

/-- The other polling thread. -/
def Side.other : Side → Side
  | .recv => .send
  | .send => .recv

@[simp] theorem Side.other_ne (side : Side) : side.other ≠ side := by
  cases side <;> decide

@[simp] theorem Side.other_other (side : Side) : side.other.other = side := by
  cases side <;> rfl

theorem Side.eq_or_eq_other (side thread : Side) : thread = side ∨ thread = side.other := by
  cases side <;> cases thread <;> decide

/-- The next shared access of a polling thread. -/
inductive Point
  /-- Load the abort word before the loop. -/
  | enter
  /-- Store 0 because the abort was raised before the loop. -/
  | clearAtEnter
  /-- Load `wait_status` to decide whether the wait is announced. -/
  | observe
  /-- Store 1 to `wait_observer`. -/
  | notify
  /-- The condition of the loop. -/
  | test
  /-- Load the abort word inside the loop. -/
  | body
  /-- Store 0 and break. -/
  | clear
  /-- Load the counter into the cache. -/
  | load
  /-- Load `wait_status` after the loop. -/
  | close
  /-- Store 1 because that load was not 0. -/
  | storeOne
  /-- At the second barrier. -/
  | done
  deriving DecidableEq

/-- The points a thread passes after its loop. -/
def Point.past : Point → Bool
  | .close | .storeOne | .done => true
  | _ => false

/-- A polling thread: its program point and its cached counter. -/
structure Poller where
  /-- The next shared access. -/
  point : Point
  /-- `recv_tail_cache` or `send_head_cache`. -/
  cache : ℕ
  deriving DecidableEq

/-- The arguments of one call. -/
structure Call where
  /-- The step whose data the call waits for. -/
  recvStep : ℕ
  /-- The step whose slot the call waits for. -/
  sendStep : ℕ
  /-- Whether `args.abort` is not null. -/
  hasAbort : Bool
  /-- Whether `args.wait_observer` is not null. -/
  hasObserver : Bool

/-- What the threads of the block, the neighbours and the host share. -/
structure State where
  /-- `wait_status`. -/
  status : ℕ
  /-- `recv_tail` and `send_head`. -/
  counter : Side → ℕ
  /-- The abort word. -/
  abort : Bool
  /-- Whether `wait_observer` was stored. -/
  observed : Bool
  /-- The two polling threads. -/
  poller : Side → Poller

/-- One access of a thread, or a move of a neighbour or of the host. -/
inductive Label
  /-- The polling thread of a side makes its next access. -/
  | poll (side : Side)
  /-- A neighbour stores a counter, which never decreases. -/
  | advance (side : Side) (value : ℕ)
  /-- The abort word is raised. -/
  | raiseAbort
  deriving DecidableEq

namespace Call

variable (call : Call)

/-- The counter is far enough for this side: data for `recv`, credit for `send`. -/
def Covers : Side → ℕ → Prop
  | .recv, counter => call.recvStep + kSliceSteps ≤ counter
  | .send, counter => call.sendStep + kSliceSteps ≤ counter + kFifoSteps

instance (side : Side) (counter : ℕ) : Decidable (call.Covers side counter) := by
  cases side <;> exact Nat.decLe _ _

theorem Covers.mono {call : Call} {side : Side} {earlier later : ℕ}
    (covered : call.Covers side earlier) (grown : earlier ≤ later) : call.Covers side later := by
  cases side with
  | recv => exact le_trans covered grown
  | send => exact le_trans covered (Nat.add_le_add_right grown _)

/-- `args.abort != nullptr && load_abort(args.abort) != 0`. -/
def raised (state : State) : Bool := call.hasAbort && state.abort

end Call

/-- The block past its first barrier: `wait_status` is 1 and both threads are about to poll. -/
def State.start (counter cache : Side → ℕ) (abort : Bool) : State where
  status := 1
  counter := counter
  abort := abort
  observed := false
  poller := fun side => ⟨.enter, cache side⟩

/-- The thread of a side proceeds to a point. -/
def State.goto (state : State) (side : Side) (point : Point) : State :=
  { state with
    poller := Function.update state.poller side ⟨point, (state.poller side).cache⟩ }

namespace Call

variable (call : Call)

/-- The next access of the polling thread of a side. -/
def poll (state : State) (side : Side) : Option State :=
  match (state.poller side).point with
  | .enter => some (state.goto side (if call.raised state then .clearAtEnter else .observe))
  | .clearAtEnter => some ({ state with status := 0 }.goto side .observe)
  | .observe =>
      some (state.goto side
        (if ¬ call.Covers side (state.poller side).cache ∧ state.status ≠ 0 ∧
            call.hasObserver = true then .notify else .test))
  | .notify => some ({ state with observed := true }.goto side .test)
  | .test =>
      some (state.goto side
        (if ¬ call.Covers side (state.poller side).cache ∧ state.status ≠ 0 then .body
          else .close))
  | .body => some (state.goto side (if call.raised state then .clear else .load))
  | .clear => some ({ state with status := 0 }.goto side .close)
  | .load =>
      some { state with
        poller := Function.update state.poller side ⟨.test, state.counter side⟩ }
  | .close => some (state.goto side (if state.status ≠ 0 then .storeOne else .done))
  | .storeOne => some ({ state with status := 1 }.goto side .done)
  | .done => none

/-- One access. -/
def step (state : State) : Label → Option State
  | .poll side => call.poll state side
  | .advance side value =>
      if state.counter side ≤ value then
        some { state with counter := Function.update state.counter side value }
      else none
  | .raiseAbort => some { state with abort := true }

end Call

/-- Both threads are at the second barrier. -/
def State.Returned (state : State) : Prop := ∀ side, (state.poller side).point = .done

/-- `return *wait_status != 0`. -/
def State.result (state : State) : Bool := state.status != 0

instance (state : State) : Decidable state.Returned :=
  decidable_of_iff ((state.poller .recv).point = .done ∧ (state.poller .send).point = .done)
    ⟨fun both side => by cases side; exacts [both.1, both.2], fun all => ⟨all _, all _⟩⟩

namespace Call

variable (call : Call)

/-- The thread of a side leaves its loop here although its cache does not cover its step: it
breaks on the abort word or its loop test reads 0. -/
def GivesUp (state : State) (side : Side) : Prop :=
  ¬ call.Covers side (state.poller side).cache ∧
    ((state.poller side).point = .clear ∨
      (state.poller side).point = .test ∧ state.status = 0)

instance (state : State) (side : Side) : Decidable (call.GivesUp state side) := by
  unfold GivesUp
  infer_instance

/-- No thread gives up between the last load and the last store the other one makes to
`wait_status`. -/
def Unraced (state : State) : Label → Prop
  | .poll side =>
      call.GivesUp state side → (state.poller side.other).point ≠ .storeOne
  | _ => True

instance (state : State) (label : Label) : Decidable (call.Unraced state label) := by
  cases label <;> unfold Unraced <;> infer_instance

/-! ## What an access does -/

section Goto

variable (state : State) (side thread : Side) (point : Point)

@[simp] theorem status_goto : (state.goto side point).status = state.status := rfl

@[simp] theorem counter_goto : (state.goto side point).counter = state.counter := rfl

@[simp] theorem cache_goto :
    ((state.goto side point).poller thread).cache = (state.poller thread).cache := by
  by_cases same : thread = side
  · subst same
    simp [State.goto]
  · simp [State.goto, same]

@[simp] theorem point_goto_self : ((state.goto side point).poller side).point = point := by
  simp [State.goto]

@[simp] theorem poller_goto_other :
    (state.goto side point).poller side.other = state.poller side.other := by
  simp [State.goto]

end Goto

variable {call : Call} {state next : State}

/-- What an access of one side can be: one up to its loop, the exit from the loop, the test after
it, or the store after that test. -/
inductive Access (call : Call) (state next : State) (side : Side) : Prop
  | upToLoop (point : (next.poller side).point.past = false)
      (cache : (next.poller side).cache = (state.poller side).cache ∨
        (next.poller side).cache = state.counter side)
      (status : next.status = state.status ∨ next.status = 0)
      (earlier : (state.poller side).point.past = false)
  | leave (point : (next.poller side).point = .close)
      (cache : (next.poller side).cache = (state.poller side).cache)
      (status : next.status = state.status ∨ next.status = 0)
      (reason : call.GivesUp state side ∧ next.status = 0 ∨
        call.Covers side (state.poller side).cache)
      (earlier : (state.poller side).point.past = false)
  | reread (cache : (next.poller side).cache = (state.poller side).cache)
      (status : next.status = state.status)
      (earlier : (state.poller side).point = .close)
      (point : state.status ≠ 0 ∧ (next.poller side).point = .storeOne ∨
        state.status = 0 ∧ (next.poller side).point = .done)
  | rewrite (cache : (next.poller side).cache = (state.poller side).cache)
      (status : next.status = 1)
      (earlier : (state.poller side).point = .storeOne)
      (point : (next.poller side).point = .done)

/-- An access leaves the counters and the other poller as they are. -/
theorem poll_frame {side : Side} (moved : call.poll state side = some next) :
    next.counter = state.counter ∧ next.poller side.other = state.poller side.other := by
  unfold poll at moved
  split at moved <;> cases moved <;> simp [State.goto]

theorem poll_cases {side : Side} (moved : call.poll state side = some next) :
    Access call state next side := by
  unfold poll at moved
  split at moved <;> rename_i here <;> cases moved
  -- the six accesses that stay in front of the loop exit
  case h_1 | h_2 | h_3 | h_4 | h_6 | h_8 =>
    refine .upToLoop ?_ (by simp) (by simp) (by rw [here]; rfl)
    simp only [point_goto_self, Function.update_self]
    repeat' split
    all_goals rfl
  case h_5 =>
    by_cases looping : ¬ call.Covers side (state.poller side).cache ∧ state.status ≠ 0
    · simp only [if_pos looping]
      exact .upToLoop (by simp [Point.past]) (by simp) (by simp) (by rw [here]; rfl)
    · simp only [if_neg looping]
      refine .leave (by simp) (by simp) (by simp) ?_ (by rw [here]; rfl)
      by_cases covered : call.Covers side (state.poller side).cache
      · exact .inr covered
      · have cleared : state.status = 0 := by
          by_contra nonzero
          exact looping ⟨covered, nonzero⟩
        exact .inl ⟨⟨covered, .inr ⟨here, cleared⟩⟩, cleared⟩
  case h_7 =>
    refine .leave (by simp) (by simp) (by simp) ?_ (by rw [here]; rfl)
    by_cases covered : call.Covers side (state.poller side).cache
    · exact .inr covered
    · exact .inl ⟨⟨covered, .inl here⟩, rfl⟩
  case h_9 =>
    refine .reread (by simp) rfl here ?_
    by_cases cleared : state.status = 0
    · simp [cleared]
    · simp [cleared]
  case h_10 => exact .rewrite (by simp) rfl here (by simp)

/-! ## Both steps are covered when the wait succeeds -/

/-- A thread passed its loop without coverage. -/
def Uncovered (call : Call) (state : State) (side : Side) : Prop :=
  (state.poller side).point.past = true ∧ ¬ call.Covers side (state.poller side).cache

/-- The caches hold earlier values of the counters, and next to a thread that passed its loop
without coverage the status is 0 and nobody is about to change that. -/
structure Guarded (call : Call) (state : State) : Prop where
  cached : ∀ side, (state.poller side).cache ≤ state.counter side
  cleared : ∀ side, call.Uncovered state side →
    state.status = 0 ∧ ∀ thread, (state.poller thread).point ≠ .storeOne

theorem guarded_start (call : Call) {counter cache : Side → ℕ}
    (cached : ∀ side, cache side ≤ counter side) (abort : Bool) :
    Guarded call (.start counter cache abort) where
  cached := cached
  cleared := fun side uncovered => by simp [Uncovered, State.start, Point.past] at uncovered

theorem Guarded.cached_poll {side : Side} (guarded : Guarded call state)
    (moved : call.poll state side = some next) (thread : Side) :
    (next.poller thread).cache ≤ next.counter thread := by
  obtain ⟨counters, frame⟩ := poll_frame moved
  rw [counters]
  rcases side.eq_or_eq_other thread with rfl | rfl
  · have own : (next.poller thread).cache = (state.poller thread).cache ∨
        (next.poller thread).cache = state.counter thread := by
      cases poll_cases moved with
      | upToLoop _ cache => exact cache
      | leave _ cache => exact .inl cache
      | reread cache => exact .inl cache
      | rewrite cache => exact .inl cache
    rcases own with kept | loaded
    · rw [kept]
      exact guarded.cached thread
    · rw [loaded]
  · rw [frame]
    exact guarded.cached side.other

theorem Guarded.poll {side : Side} (guarded : Guarded call state)
    (unraced : call.Unraced state (.poll side)) (moved : call.poll state side = some next) :
    Guarded call next := by
  refine ⟨guarded.cached_poll moved, fun thread uncovered => ?_⟩
  obtain ⟨-, frame⟩ := poll_frame moved
  have other_uncovered (uncovered : call.Uncovered next side.other) :
      call.Uncovered state side.other := by
    simpa [Uncovered, frame] using uncovered
  have past_uncovered (cache : (next.poller side).cache = (state.poller side).cache)
      (earlier : (state.poller side).point.past = true) :
      ∃ witness, call.Uncovered state witness := by
    rcases side.eq_or_eq_other thread with rfl | rfl
    · exact ⟨thread, earlier, by simpa [cache] using uncovered.2⟩
    · exact ⟨side.other, other_uncovered uncovered⟩
  have nobody (own : (next.poller side).point ≠ .storeOne)
      (other : (state.poller side.other).point ≠ .storeOne) (thread : Side) :
      (next.poller thread).point ≠ .storeOne := by
    rcases side.eq_or_eq_other thread with rfl | rfl
    · exact own
    · rwa [frame]
  cases poll_cases moved with
  | upToLoop point _ status =>
      rcases side.eq_or_eq_other thread with rfl | rfl
      · rw [Uncovered, point] at uncovered
        exact absurd uncovered.1 Bool.false_ne_true
      · obtain ⟨zero, idle⟩ := guarded.cleared side.other (other_uncovered uncovered)
        have own : (next.poller side).point ≠ .storeOne := by
          intro storing
          rw [storing] at point
          cases point
        exact ⟨by rcases status with same | stored <;> simp_all, nobody own (idle side.other)⟩
  | leave point cache status reason =>
      have own : (next.poller side).point ≠ .storeOne := by simp [point]
      rcases side.eq_or_eq_other thread with rfl | rfl
      · rcases reason with ⟨gives_up, stored⟩ | covered
        · exact ⟨stored, nobody own (unraced gives_up)⟩
        · rw [Uncovered, cache] at uncovered
          exact absurd covered uncovered.2
      · obtain ⟨zero, idle⟩ := guarded.cleared side.other (other_uncovered uncovered)
        exact ⟨by rcases status with same | stored <;> simp_all, nobody own (idle side.other)⟩
  | reread cache status earlier point =>
      obtain ⟨witness, uncovered_before⟩ := past_uncovered cache (by rw [earlier]; rfl)
      obtain ⟨zero, idle⟩ := guarded.cleared witness uncovered_before
      have own : (next.poller side).point ≠ .storeOne := by
        rcases point with ⟨nonzero, -⟩ | ⟨-, finished⟩
        · exact absurd zero nonzero
        · simp [finished]
      exact ⟨by rw [status, zero], nobody own (idle side.other)⟩
  | rewrite cache status earlier point =>
      -- the store of 1 is due, so no thread has passed its loop without coverage
      obtain ⟨witness, uncovered_before⟩ := past_uncovered cache (by rw [earlier]; rfl)
      exact absurd earlier ((guarded.cleared witness uncovered_before).2 side)

theorem Guarded.step {label : Label} (guarded : Guarded call state)
    (unraced : call.Unraced state label) (stepped : call.step state label = some next) :
    Guarded call next := by
  cases label with
  | poll side => exact guarded.poll unraced stepped
  | advance side value =>
      simp only [Call.step] at stepped
      split at stepped
      · rename_i grown
        cases stepped
        refine ⟨fun thread => ?_, guarded.cleared⟩
        by_cases same : thread = side
        · subst same
          simpa using le_trans (guarded.cached thread) grown
        · simpa [same] using guarded.cached thread
      · cases stepped
  | raiseAbort =>
      cases stepped
      exact ⟨guarded.cached, guarded.cleared⟩

theorem Guarded.covers (guarded : Guarded call state) (returned : state.Returned)
    (succeeded : state.result = true) (side : Side) : call.Covers side (state.counter side) := by
  have nonzero : state.status ≠ 0 := by simpa [State.result] using succeeded
  by_contra uncovered
  have stale : ¬ call.Covers side (state.poller side).cache := fun covered =>
    uncovered (covered.mono (guarded.cached side))
  have passed : call.Uncovered state side := ⟨by rw [returned side]; rfl, stale⟩
  exact nonzero (guarded.cleared side passed).1

/-- Whatever the two threads, the neighbours and the host do in any order, as long as no thread
gives up between the other one's last load and store of `wait_status`: when the wait returns true,
the data and the credit of the step are there. -/
theorem returns_true_covered {counter cache : Side → ℕ} {abort : Bool} {labels : List Label}
    {final : State} (call : Call) (cached : ∀ side, cache side ≤ counter side)
    (unraced : StepSystem.Along call.step call.Unraced (.start counter cache abort) labels)
    (execution : StepSystem.exec call.step (.start counter cache abort) labels = some final)
    (returned : final.Returned) (succeeded : final.result = true) :
    call.recvStep + kSliceSteps ≤ final.counter .recv ∧
      call.sendStep + kSliceSteps ≤ final.counter .send + kFifoSteps := by
  have guarded : Guarded call final :=
    StepSystem.exec_invariant_along (Guarded call)
      (fun _ _ _ guarded unraced stepped => guarded.step unraced stepped)
      (guarded_start call cached abort) unraced execution
  exact ⟨guarded.covers returned succeeded .recv, guarded.covers returned succeeded .send⟩

/-- Thread 1 polls in vain, its credit arrives, and it reads 1 behind its loop; then the abort is
raised, thread 0, whose data is there, stores 0 in front of its loop, and thread 1 stores 1. -/
def waitLabels : List Label :=
  List.flatten
    [List.replicate 5 (.poll .send), [.advance .send 2], List.replicate 3 (.poll .send),
      [.raiseAbort], List.replicate 5 (.poll .recv), [.poll .send]]

/-- An abort that is seen and overruled: the wait returns true, and data and credit are there. -/
theorem returns_true_covered_aborted :
    ∃ final : State,
      StepSystem.exec (⟨0, 8, true, true⟩ : Call).step
          (.start (fun side => if side = .recv then 2 else 0)
            (fun side => if side = .recv then 2 else 0) false) waitLabels = some final ∧
        final.abort = true ∧
        (⟨0, 8, true, true⟩ : Call).recvStep + kSliceSteps ≤ final.counter .recv ∧
        (⟨0, 8, true, true⟩ : Call).sendStep + kSliceSteps ≤ final.counter .send + kFifoSteps := by
  have execution :
      StepSystem.exec (⟨0, 8, true, true⟩ : Call).step
        (.start (fun side => if side = .recv then 2 else 0)
          (fun side => if side = .recv then 2 else 0) false) waitLabels = some _ := rfl
  refine ⟨_, execution, rfl, returns_true_covered _ (fun _ => le_refl _) ?_ execution ?_ rfl⟩
  · exact StepSystem.along_of_checkAlong (fun _ _ => of_decide_eq_true) (by decide)
  · decide

/-! ## A thread that gives up unseen -/

/-- A thread passed its loop without coverage, and the other one still stores 1 or did so last. -/
structure Overruled (call : Call) (side : Side) (state : State) : Prop where
  uncovered : call.Uncovered state side
  other : (state.poller side.other).point = .storeOne ∨
    (state.poller side.other).point = .done ∧ state.status = 1

/-- The step that `Unraced` excludes. -/
theorem overruled_of_raced {side : Side} (gives_up : call.GivesUp state side)
    (racing : (state.poller side.other).point = .storeOne)
    (moved : call.poll state side = some next) : Overruled call side next := by
  obtain ⟨-, frame⟩ := poll_frame moved
  refine ⟨?_, .inl (by rw [frame, racing])⟩
  obtain ⟨stale, breaks | ⟨tests, zero⟩⟩ := gives_up
  · rw [poll, breaks] at moved
    cases moved
    exact ⟨by simp [Point.past], by simpa using stale⟩
  · rw [poll, tests] at moved
    cases moved
    simp [Uncovered, Point.past, zero, stale]

theorem Overruled.poll_self {side : Side} (overruled : Overruled call side state)
    (moved : call.poll state side = some next) : Overruled call side next := by
  obtain ⟨-, frame⟩ := poll_frame moved
  obtain ⟨⟨past, stale⟩, other⟩ := overruled
  have kept (cache : (next.poller side).cache = (state.poller side).cache)
      (point : (next.poller side).point.past = true) : call.Uncovered next side :=
    ⟨point, by rwa [cache]⟩
  cases poll_cases moved with
  | upToLoop _ _ _ earlier => simp [earlier] at past
  | leave _ _ _ _ earlier => simp [earlier] at past
  | reread cache status _ point =>
      refine ⟨kept cache ?_, by rwa [frame, status]⟩
      rcases point with ⟨-, at_store⟩ | ⟨-, finished⟩
      · rw [at_store]
        rfl
      · rw [finished]
        rfl
  | rewrite cache status _ point =>
      refine ⟨kept cache (by rw [point]; rfl), ?_⟩
      rw [frame]
      exact other.imp_right fun finished => ⟨finished.1, status⟩

theorem Overruled.poll_other {side : Side} (overruled : Overruled call side state)
    (moved : call.poll state side.other = some next) : Overruled call side next := by
  obtain ⟨-, frame⟩ := poll_frame moved
  rw [Side.other_other] at frame
  refine ⟨by simpa [Uncovered, frame] using overruled.uncovered, .inr ?_⟩
  rcases overruled.other with storing | ⟨finished, -⟩
  · rw [poll, storing] at moved
    cases moved
    simp
  · rw [poll, finished] at moved
    cases moved

/-- Once a thread has given up between the last load and the last store of the other one, the
wait returns true and that thread's cache does not cover its step, whatever happens next: the
condition on the steps cannot be weakened. -/
theorem raced_returns_true {side : Side} {labels : List Label} {final : State}
    (gives_up : call.GivesUp state side) (racing : (state.poller side.other).point = .storeOne)
    (execution : StepSystem.exec call.step state (.poll side :: labels) = some final)
    (returned : final.Returned) :
    final.result = true ∧ ¬ call.Covers side (final.poller side).cache := by
  rw [StepSystem.exec_cons] at execution
  obtain ⟨next, moved, later⟩ := Option.bind_eq_some_iff.mp execution
  have overruled : Overruled call side final := by
    refine StepSystem.Reachable.invariant (Overruled call side) ?_
      (overruled_of_raced gives_up racing moved) ⟨labels, later⟩
    intro state label next overruled stepped
    cases label with
    | poll thread =>
        rcases side.eq_or_eq_other thread with rfl | rfl
        · exact overruled.poll_self stepped
        · exact overruled.poll_other stepped
    | advance thread value =>
        simp only [Call.step] at stepped
        split at stepped
        · cases stepped
          exact ⟨overruled.uncovered, overruled.other⟩
        · cases stepped
    | raiseAbort =>
        cases stepped
        exact ⟨overruled.uncovered, overruled.other⟩
  refine ⟨?_, overruled.uncovered.2⟩
  rcases overruled.other with storing | ⟨-, one⟩
  · rw [returned side.other] at storing
    cases storing
  · simp [State.result, one]

/-- Thread 1 has its credit and reads 1 after its loop; the abort is raised, thread 0 breaks and
stores 0, and thread 1 stores 1: the wait returns true and no data has arrived. -/
theorem returns_true_uncovered :
    ∃ final : State,
      StepSystem.exec (⟨0, 0, true, false⟩ : Call).step (.start (fun _ => 0) (fun _ => 0) false)
          [.poll .send, .poll .send, .poll .send, .poll .send, .raiseAbort, .poll .recv,
            .poll .recv, .poll .recv, .poll .recv, .poll .recv, .poll .send] = some final ∧
        final.Returned ∧ final.result = true ∧
        ¬ (⟨0, 0, true, false⟩ : Call).recvStep + kSliceSteps ≤ final.counter .recv :=
  ⟨_, rfl, by decide, by decide, by decide⟩

end Call
end OverlappedWait
end NanoNccl
