import NanoNccl.Communicator.MpiRuntime
import NanoNccl.Lib.Counting

/-!
# The adapter and the MPI runtime

What holds in every interleaving of creations and destructions. The adapter initializes MPI before
it calls anything else where the application has not; no MPI call of the adapter follows the end of
MPI, MPI is initialized and finalized at most once, and never finalized by the adapter where the
application has initialized it. When all handles are gone, so are the leases, the
communicators and the runtime the adapter has started.
-/

namespace NanoNccl
namespace MpiRuntime

variable {ι : Type*}

/-! ## One handle -/

/-- The communicator of a handle is freed, as far as MPI allows. -/
def Returned (log : List (Call ι)) (handle : ι) : Prop :=
  .split handle ∈ log → .free handle ∈ log ∨ .lost handle ∈ log ∨ .appFinalize ∈ log

/-- The handle has made no call that is logged. -/
def Fresh (log : List (Call ι)) (handle : ι) : Prop :=
  .split handle ∉ log ∧ .free handle ∉ log ∧ .lost handle ∉ log

/-- What the next operation on a handle says about the runtime and the log. -/
def Facts (shared : Runtime) (log : List (Call ι)) (handle : ι) : Pc → Prop
  | .start | .lockAcquire | .queryInitialized | .unlockThrown => Fresh log handle
  | .queryFinalized => Fresh log handle ∧ shared.initialized = true
  | .initThread => Fresh log handle ∧ shared.initialized = false
  | .finalizeUnfit =>
      Fresh log handle ∧ shared.finalized = false ∧ shared.leases = 0 ∧ .init ∈ log
  | .grant =>
      Fresh log handle ∧ shared.initialized = true ∧ shared.finalized = false
  | .unlockGranted | .split => Fresh log handle ∧ shared.finalized = false
  | .build =>
      .split handle ∈ log ∧ .free handle ∉ log ∧ .lost handle ∉ log ∧ shared.finalized = false
  | .live => .split handle ∈ log ∧ .free handle ∉ log ∧ .lost handle ∉ log
  | .checkFinalized _ comm =>
      .free handle ∉ log ∧ .lost handle ∉ log ∧ (comm = false → .split handle ∉ log)
  | .free _ => .free handle ∉ log ∧ shared.finalized = false
  | .lockRelease _ active | .giveBack _ active =>
      Returned log handle ∧ (active = true → shared.finalized = false) ∧
        (active = false → .lost handle ∈ log ∨ shared.finalized = true)
  | .finalize _ =>
      Returned log handle ∧ shared.finalized = false ∧ shared.leases = 0 ∧
        shared.initializedByAdapter = true
  | .clearAdapter _ => Returned log handle ∧ .finalize ∈ log
  | .unlockReleased _ | .done _ => Returned log handle

variable {shared shared' : Runtime} {log calls : List (Call ι)} {handle other : ι} {pc : Pc}

/-- Calls for other handles. -/
def Foreign (calls : List (Call ι)) (handle : ι) : Prop :=
  .split handle ∉ calls ∧ .free handle ∉ calls ∧ .lost handle ∉ calls

theorem Returned.append (returned : Returned log handle) (foreign : Foreign calls handle) :
    Returned (log ++ calls) handle := by
  intro member
  have before : .split handle ∈ log := (List.mem_append.mp member).resolve_right foreign.1
  rcases returned before with freed | lost | ended
  · exact .inl (List.mem_append_left _ freed)
  · exact .inr (.inl (List.mem_append_left _ lost))
  · exact .inr (.inr (List.mem_append_left _ ended))

theorem mem_append_foreign {call : Call ι} (foreign : call ∉ calls) :
    call ∈ log ++ calls ↔ call ∈ log := by
  simp [foreign]

theorem Fresh.returned (fresh : Fresh log handle) : Returned log handle :=
  fun member => absurd member fresh.1

theorem foreign_nil (handle : ι) : Foreign [] handle := by simp [Foreign]

/-- Other handles do not notice the calls for a handle. -/
theorem Facts.append (facts : Facts shared log handle pc) (foreign : Foreign calls handle) :
    Facts shared (log ++ calls) handle pc := by
  obtain ⟨split, free, lost⟩ := foreign
  have grow {call : Call ι} (member : call ∈ log) : call ∈ log ++ calls :=
    List.mem_append_left _ member
  have returned := fun given : Returned log handle => given.append ⟨split, free, lost⟩
  cases pc <;>
    simp only [Facts, Fresh, mem_append_foreign split, mem_append_foreign free,
      mem_append_foreign lost] at facts ⊢ <;>
    first
      | exact facts
      | exact ⟨facts.1, facts.2.1, facts.2.2.1, grow facts.2.2.2⟩
      | exact ⟨returned facts.1, grow facts.2⟩
      | exact ⟨returned facts.1, facts.2⟩
      | exact returned facts

/-- Outside the critical sections only the end of MPI matters, and it comes while no lease
is out. -/
theorem Facts.frame (facts : Facts shared log handle pc) (outside : ¬ pc.Holds)
    (finalized : shared'.finalized = shared.finalized ∨
      ¬ pc.Leased ∨ pc.Outside) :
    Facts shared' log handle pc := by
  cases pc <;> simp_all [Facts, Pc.Holds, Pc.Leased, Pc.Outside]

/-! ## All handles -/

/-- What holds of the runtime and the log. -/
structure World (external : Bool) (shared : Runtime) (log : List (Call ι)) : Prop where
  foreign : external = true → shared.initialized = true ∧ .init ∉ log ∧ .finalize ∉ log
  adapter : shared.initializedByAdapter = true → .init ∈ log
  untouched : shared.initialized = false → log = [] ∧ shared.leases = 0
  begun : external = false → shared.initialized = true → log.head? = some .init
  running : shared.finalized = false → ∀ call ∈ log, ¬ call.Ends
  ended : shared.finalized = true → .finalize ∈ log ∨ .appFinalize ∈ log
  app : .appFinalize ∈ log → external = true
  drained : .finalize ∈ log → shared.leases = 0
  last : log.Pairwise fun earlier later => earlier.Ends → ∃ handle, later = .lost handle
  first : log.Pairwise fun _ later => later ≠ .init
  nodup : log.Nodup

/-! ## The log -/

namespace World

variable {external : Bool} {call : Call ι}

/-- One more call keeps the order of the log. -/
theorem ordered (world : World external shared log)
    (open_end : shared.finalized = false ∨ ∃ handle, call = .lost handle) (init : call ≠ .init)
    (fresh : call ∉ log) :
    (log ++ [call]).Pairwise (fun earlier later => earlier.Ends → ∃ handle, later = .lost handle) ∧
      (log ++ [call]).Pairwise (fun _ later => later ≠ .init) ∧ (log ++ [call]).Nodup := by
  refine ⟨List.pairwise_append.mpr ⟨world.last, List.pairwise_singleton _ _, ?_⟩,
    List.pairwise_append.mpr ⟨world.first, List.pairwise_singleton _ _, ?_⟩,
    List.nodup_append.mpr ⟨world.nodup, List.nodup_singleton _, ?_⟩⟩
  · intro earlier member later new ends
    rw [List.mem_singleton.mp new]
    rcases open_end with running | lost
    · exact absurd ends (world.running running earlier member)
    · exact lost
  · intro _ _ later new
    rwa [List.mem_singleton.mp new]
  · rintro old member _ new rfl
    rw [List.mem_singleton.mp new] at member
    exact fresh member

/-- A call that does not end MPI is logged. -/
theorem logged (world : World external shared log)
    (open_end : shared.finalized = false ∨ ∃ handle, call = .lost handle)
    (initialized : shared.initialized = true) (plain : ¬ call.Ends) (init : call ≠ .init)
    (fresh : call ∉ log) : World external shared (log ++ [call]) := by
  obtain ⟨last, first, nodup⟩ := world.ordered open_end init fresh
  have finalize : Call.finalize ≠ call := by rintro rfl; exact plain trivial
  have appFinalize : Call.appFinalize ≠ call := by rintro rfl; exact plain trivial
  refine { last, first, nodup, foreign := ?_, adapter := ?_, untouched := ?_, begun := ?_,
           running := ?_, ended := ?_, app := ?_, drained := ?_ }
  · simpa [Ne.symm init, finalize] using world.foreign
  · simpa [Ne.symm init] using world.adapter
  · simp [initialized]
  · exact fun own _ => by simp [world.begun own initialized]
  · intro running other member
    rcases List.mem_append.mp member with old | new
    · exact world.running running other old
    · rwa [List.mem_singleton.mp new]
  · simpa [finalize, appFinalize] using world.ended
  · simpa [appFinalize] using world.app
  · simpa [finalize] using world.drained

/-- The adapter initializes MPI. -/
theorem init (world : World external shared log) (uninitialized : shared.initialized = false)
    (byAdapter : Bool) :
    World external { shared with initialized := true, initializedByAdapter := byAdapter }
      (log ++ [.init]) := by
  obtain ⟨rfl, leases⟩ := world.untouched uninitialized
  have running : shared.finalized = false := by
    by_contra finalized
    simpa using world.ended (by simpa using finalized)
  have own : external = false := by
    by_contra foreign
    rw [(world.foreign (by simpa using foreign)).1] at uninitialized
    cases uninitialized
  subst own
  constructor <;> simp [running, Call.Ends]

/-- The adapter finalizes the MPI it has initialized. -/
theorem finalize (world : World external shared log) (running : shared.finalized = false)
    (member : .init ∈ log) (leases : shared.leases = 0) :
    World external { shared with finalized := true } (log ++ [.finalize]) := by
  have fresh : Call.finalize ∉ log := fun ended => world.running running _ ended trivial
  obtain ⟨last, first, nodup⟩ := world.ordered (.inl running) (by simp) fresh
  have initialized : shared.initialized = true := by
    by_contra uninitialized
    rw [(world.untouched (by simpa using uninitialized)).1] at member
    cases member
  have own : external ≠ true := fun foreign => (world.foreign foreign).2.1 member
  refine { last, first, nodup, foreign := fun foreign => absurd foreign own, adapter := ?_,
           untouched := ?_, begun := ?_, running := ?_, ended := ?_, app := ?_,
           drained := fun _ => leases }
  · exact fun adapter => List.mem_append_left _ (world.adapter adapter)
  · simp [initialized]
  · exact fun own _ => by simp [world.begun own initialized]
  · simp
  · simp
  · simpa using world.app

/-- The application finalizes the MPI it has initialized. -/
theorem appFinalize (world : World true shared log) (running : shared.finalized = false) :
    World true { shared with finalized := true } (log ++ [.appFinalize]) := by
  have fresh : Call.appFinalize ∉ log := fun ended => world.running running _ ended trivial
  obtain ⟨last, first, nodup⟩ := world.ordered (.inl running) (by simp) fresh
  refine { last, first, nodup, foreign := ?_, adapter := ?_, untouched := ?_, begun := nofun,
           running := ?_, ended := ?_, app := fun _ => rfl, drained := ?_ }
  · simpa using world.foreign
  · simpa using world.adapter
  · simp [(world.foreign rfl).1]
  · simp
  · simp
  · simpa using world.drained

/-- Leases come and go while the adapter has not finalized MPI. -/
theorem setLeases (world : World external shared log) {leases : ℕ}
    (initialized : shared.initialized = true) (drained : .finalize ∈ log → leases = 0) :
    World external { shared with leases } log :=
  { world with untouched := by simp [initialized], begun := world.begun, drained }

/-- The adapter is no longer responsible for MPI. -/
theorem clearAdapter (world : World external shared log) :
    World external { shared with initializedByAdapter := false } log :=
  { world with adapter := nofun }

end World

/-! ## The whole adapter -/

/-- The operation ends with MPI finalized, if the adapter has to. -/
def Pc.Keeps : Pc → Prop
  | .grant | .finalizeUnfit | .finalize _ => True
  | pc => pc.Leased

/-- The move changes neither the mutex nor what the handle is responsible for. -/
structure Pc.Quiet (pc next : Pc) : Prop where
  holds : next.Holds ↔ pc.Holds
  leased : next.Leased ↔ pc.Leased
  keeps : pc.Keeps → next.Keeps
  unfit : pc ≠ .finalizeUnfit

variable [Fintype ι]

/-- The invariant of the adapter. -/
structure Inv (external : Bool) (state : State ι) : Prop where
  exclusive : Mutex.Exclusive Pc.Holds state
  leases : state.shared.leases = Counting.count Pc.Leased state.pc
  facts : ∀ handle, Facts state.shared state.log handle (state.pc handle)
  world : World external state.shared state.log
  kept : .init ∈ state.log → .finalize ∈ state.log ∨ (∃ handle, (state.pc handle).Keeps) ∨
    ∃ handle, .lost handle ∈ state.log
  adapter : .init ∈ state.log → state.shared.initializedByAdapter = true ∨
    .finalize ∈ state.log ∨ ∃ handle, state.pc handle = .finalizeUnfit

theorem inv_initial (external : Bool) : Inv external (initial external : State ι) := by
  constructor
  case exclusive =>
    intro handle
    simp [initial, Pc.Holds]
  case leases =>
    symm
    simp [initial, Counting.count_eq_zero_iff, Pc.Leased]
  case facts =>
    intro handle
    simp [initial, Facts, Fresh]
  case world => constructor <;> simp [initial]
  case kept => simp [initial]
  case adapter => simp [initial]

variable {external : Bool} {state next : State ι} {ending : Ending}

theorem Inv.leases_pos (inv : Inv external state) (leased : (state.pc handle).Leased) :
    0 < state.shared.leases := by
  rw [inv.leases]
  exact Counting.count_pos_iff.mpr ⟨handle, leased⟩

theorem Inv.initialized (inv : Inv external state) (leased : (state.pc handle).Leased) :
    state.shared.initialized = true := by
  by_contra uninitialized
  have none := (inv.world.untouched (by simpa using uninitialized)).2
  have some := inv.leases_pos leased
  omega

variable [DecidableEq ι]

/-- The leases after one handle has moved. -/
theorem Inv.leases_update (inv : Inv external state) (handle : ι) (pc : Pc) :
    Counting.count Pc.Leased (Function.update state.pc handle pc) +
        (if (state.pc handle).Leased then 1 else 0) =
      state.shared.leases + if pc.Leased then 1 else 0 := by
  rw [inv.leases]
  exact Counting.count_update Pc.Leased state.pc handle pc

/-- A move that touches neither the runtime nor the log. -/
theorem Inv.move (inv : Inv external state) (exclusive : Mutex.Exclusive Pc.Holds next)
    (shared : next.shared = state.shared) (log : next.log = state.log)
    (table : next.pc = Function.update state.pc handle pc)
    (facts : Facts state.shared state.log handle pc)
    (leased : pc.Leased ↔ (state.pc handle).Leased)
    (keeps : (state.pc handle).Keeps → pc.Keeps)
    (unfit : state.pc handle ≠ .finalizeUnfit) : Inv external next := by
  constructor
  case exclusive => exact exclusive
  case leases =>
    have count := inv.leases_update handle pc
    rw [table, shared]
    simp only [leased] at count
    omega
  case facts =>
    rw [table, shared, log]
    exact (Function.forall_update_iff state.pc (Facts state.shared state.log)).mpr
      ⟨facts, fun other _ => inv.facts other⟩
  case world =>
    rw [shared, log]
    exact inv.world
  case kept =>
    rw [table, log]
    intro member
    exact (inv.kept member).imp_right (Or.imp_left fun some =>
      Mutex.exists_update_of_imp some keeps)
  case adapter =>
    rw [table, log, shared]
    intro member
    exact (inv.adapter member).imp_right (Or.imp_right fun some =>
      Mutex.exists_update (P := fun pc : Pc => pc = .finalizeUnfit) some unfit)

/-- An operation, given what holds of the runtime and the log after it. -/
theorem Inv.operate (inv : Inv external state)
    (same : pc.Holds ↔ (state.pc handle).Holds)
    (leases : shared'.leases + (if (state.pc handle).Leased then 1 else 0) =
      state.shared.leases + if pc.Leased then 1 else 0)
    (alone : (state.pc handle).Holds ∨ shared' = state.shared)
    (finalized : shared'.finalized = state.shared.finalized ∨ state.shared.leases = 0)
    (foreign : ∀ other, other ≠ handle → Foreign calls other)
    (facts : Facts shared' (state.log ++ calls) handle pc)
    (world : World external shared' (state.log ++ calls))
    (kept : .init ∈ state.log ++ calls → .finalize ∈ state.log ++ calls ∨
      (∃ other, (Function.update state.pc handle pc other).Keeps) ∨
        ∃ other, .lost other ∈ state.log ++ calls)
    (adapter : .init ∈ state.log ++ calls → shared'.initializedByAdapter = true ∨
      .finalize ∈ state.log ++ calls ∨
        ∃ other, Function.update state.pc handle pc other = .finalizeUnfit) :
    Inv external { state.act handle shared' pc with log := state.log ++ calls } := by
  constructor
  case exclusive =>
    exact (inv.exclusive.act same : Mutex.Exclusive Pc.Holds (state.act handle shared' pc))
  case leases =>
    have count := inv.leases_update handle pc
    show shared'.leases = Counting.count Pc.Leased (Function.update state.pc handle pc)
    omega
  case facts =>
    refine (Function.forall_update_iff state.pc (Facts shared' (state.log ++ calls))).mpr
      ⟨facts, fun other distinct => ?_⟩
    have grown := (inv.facts other).append (foreign other distinct)
    rcases alone with holds | unchanged
    · refine grown.frame (inv.exclusive.alone holds distinct) (finalized.imp_right fun none => ?_)
      rw [inv.leases, Counting.count_eq_zero_iff] at none
      exact .inl (none other)
    · rwa [unchanged]
  case world => exact world
  case kept => exact kept
  case adapter => exact adapter

/-- The handle stays responsible for the end of MPI, or the log tells why nobody is. -/
theorem Inv.kept_update (inv : Inv external state) (init : .init ∉ calls)
    (keeps : (state.pc handle).Keeps → pc.Keeps) (member : .init ∈ state.log ++ calls) :
    .finalize ∈ state.log ++ calls ∨ (∃ other, (Function.update state.pc handle pc other).Keeps) ∨
      ∃ other, .lost other ∈ state.log ++ calls := by
  rcases inv.kept ((mem_append_foreign init).mp member) with ended | some | ⟨other, lost⟩
  · exact .inl (List.mem_append_left _ ended)
  · exact .inr (.inl (Mutex.exists_update_of_imp some keeps))
  · exact .inr (.inr ⟨other, List.mem_append_left _ lost⟩)

theorem Inv.adapter_update (inv : Inv external state) (init : .init ∉ calls)
    (same : state.shared.initializedByAdapter = true → shared'.initializedByAdapter = true)
    (unfit : state.pc handle ≠ .finalizeUnfit) (member : .init ∈ state.log ++ calls) :
    shared'.initializedByAdapter = true ∨ .finalize ∈ state.log ++ calls ∨
      ∃ other, Function.update state.pc handle pc other = .finalizeUnfit := by
  rcases inv.adapter ((mem_append_foreign init).mp member) with adapter | ended | some
  · exact .inl (same adapter)
  · exact .inr (.inl (List.mem_append_left _ ended))
  · exact .inr (.inr (Mutex.exists_update (P := fun pc : Pc => pc = .finalizeUnfit) some unfit))

/-! ### The operations -/

/-- `MPI_Init_thread` succeeds, with enough thread support or without. -/
theorem Inv.init (inv : Inv external state) (at_pc : state.pc handle = .initThread)
    (fit : Bool) :
    Inv external
      { state.act handle
          { state.shared with
            initialized := true
            initializedByAdapter := fit || state.shared.initializedByAdapter }
          (if fit then .grant else .finalizeUnfit) with
        log := state.log ++ [.init] } := by
  have facts := inv.facts handle
  rw [at_pc] at facts
  obtain ⟨fresh, uninitialized⟩ := facts
  obtain ⟨empty, none⟩ := inv.world.untouched uninitialized
  have running : state.shared.finalized = false := by
    by_contra finalized
    simpa [empty] using inv.world.ended (by simpa using finalized)
  refine inv.operate ?_ ?_ (.inl (by simp [at_pc, Pc.Holds])) (.inl rfl) ?_ ?_
    (inv.world.init uninitialized _) ?_ ?_
  · cases fit <;> simp [at_pc, Pc.Holds]
  · cases fit <;> simp [at_pc, Pc.Leased]
  · exact fun other _ => by simp [Foreign]
  · cases fit
    · simp [Facts, Fresh, empty, running, none]
    · simp [Facts, Fresh, empty, running]
  · intro _
    refine .inr (.inl ⟨handle, ?_⟩)
    rw [Function.update_self]
    cases fit <;> exact trivial
  · intro _
    cases fit
    · exact .inr (.inr ⟨handle, Function.update_self _ _ _⟩)
    · exact .inl rfl

/-- `MPI_Finalize`, for want of thread support or of leases. -/
theorem Inv.finalize (inv : Inv external state)
    (holds : (state.pc handle).Holds) (unleased : ¬ (state.pc handle).Leased)
    (running : state.shared.finalized = false) (leases : state.shared.leases = 0)
    (init : .init ∈ state.log) (next_holds : pc.Holds) (next_unleased : ¬ pc.Leased)
    (facts : Facts { state.shared with finalized := true } (state.log ++ [.finalize]) handle pc) :
    Inv external
      { state.act handle { state.shared with finalized := true } pc with
        log := state.log ++ [.finalize] } := by
  refine inv.operate (by simp [holds, next_holds]) (by simp [unleased, next_unleased])
    (.inl holds) (.inr leases) (fun other _ => by simp [Foreign]) facts
    (inv.world.finalize running init leases) (fun _ => .inl (by simp))
    (fun _ => .inr (.inl (by simp)))

/-- `MPI_Comm_split`, `MPI_Comm_free` or a failing `MPI_Finalized`. -/
theorem Inv.call (inv : Inv external state) {call : Call ι}
    (leased : (state.pc handle).Leased) (outside : ¬ (state.pc handle).Holds)
    (next_leased : pc.Leased) (next_outside : ¬ pc.Holds)
    (open_end : state.shared.finalized = false ∨ ∃ handle, call = .lost handle)
    (plain : ¬ call.Ends) (init : call ≠ .init) (fresh : call ∉ state.log)
    (foreign : ∀ other, other ≠ handle → Foreign [call] other)
    (facts : Facts state.shared (state.log ++ [call]) handle pc) :
    Inv external { state.act handle state.shared pc with log := state.log ++ [call] } := by
  have initialized := inv.initialized leased
  have unmentioned : Call.init ∉ [call] := by simpa using Ne.symm init
  refine inv.operate (by simp [outside, next_outside]) (by simp [leased, next_leased])
    (.inr rfl) (.inl rfl) foreign facts
    (inv.world.logged open_end initialized plain init fresh) ?_ ?_
  · refine inv.kept_update unmentioned fun _ => ?_
    cases pc <;> simp_all [Pc.Keeps, Pc.Leased]
  · refine inv.adapter_update unmentioned id ?_
    intro unfit
    simp [unfit, Pc.Leased] at leased

/-- `++state.leases` -/
theorem Inv.grant (inv : Inv external state) (at_pc : state.pc handle = .grant) :
    Inv external
      { state.act handle { state.shared with leases := state.shared.leases + 1 } .unlockGranted with
        log := state.log ++ [] } := by
  have facts := inv.facts handle
  rw [at_pc] at facts
  obtain ⟨fresh, initialized, running⟩ := facts
  refine inv.operate (by simp [at_pc, Pc.Holds]) (by simp [at_pc, Pc.Leased])
    (.inl (by simp [at_pc, Pc.Holds])) (.inl rfl) (fun other _ => foreign_nil other) ?_ ?_
    (inv.kept_update (by simp) fun _ => trivial) (inv.adapter_update (by simp) id (by simp [at_pc]))
  · rw [List.append_nil]
    exact ⟨fresh, running⟩
  · rw [List.append_nil]
    exact inv.world.setLeases initialized fun ended =>
      absurd trivial (inv.world.running running _ ended)

/-- `--state.leases` and the test that follows. -/
theorem Inv.giveBack (inv : Inv external state) {active : Bool}
    (at_pc : state.pc handle = .giveBack ending active) :
    Inv external
      { state.act handle { state.shared with leases := state.shared.leases - 1 }
          (if active ∧ state.shared.initializedByAdapter ∧ state.shared.leases - 1 = 0 then
            .finalize ending else .unlockReleased ending) with
        log := state.log ++ [] } := by
  have facts := inv.facts handle
  rw [at_pc] at facts
  obtain ⟨returned, running, inactive⟩ := facts
  have leased : (state.pc handle).Leased := by simp [at_pc, Pc.Leased]
  have positive := inv.leases_pos leased
  have holds : (state.pc handle).Holds := by simp [at_pc, Pc.Holds]
  have drained : .finalize ∈ state.log → state.shared.leases - 1 = 0 := fun ended => by
    have := inv.world.drained ended
    omega
  refine inv.operate ?_ ?_ (.inl holds) (.inl rfl) (fun other _ => foreign_nil other) ?_ ?_ ?_
    (inv.adapter_update (by simp) id (by simp [at_pc]))
  · split <;> simp [at_pc, Pc.Holds]
  · rw [if_pos leased, if_neg (by split <;> simp [Pc.Leased])]
    show state.shared.leases - 1 + 1 = _
    omega
  · rw [List.append_nil]
    split
    · rename_i last
      exact ⟨returned, running last.1, last.2.2, last.2.1⟩
    · exact returned
  · rw [List.append_nil]
    exact inv.world.setLeases (inv.initialized leased) drained
  · rw [List.append_nil]
    intro init
    split
    · exact .inr (.inl ⟨handle, by simp [Pc.Keeps]⟩)
    · rename_i stays
      by_cases others : ∃ other, other ≠ handle ∧ (state.pc other).Leased
      · obtain ⟨other, distinct, has⟩ := others
        refine .inr (.inl ⟨other, ?_⟩)
        rw [Function.update_of_ne distinct]
        cases at_other : state.pc other <;> simp_all [Pc.Keeps, Pc.Leased]
      · -- The last lease goes without the end of MPI: the adapter could not ask for it.
        have none : ∀ other, ¬ (Function.update state.pc handle
            (.unlockReleased ending) other).Leased := by
          refine Mutex.forall_update (P := fun pc : Pc => ¬ pc.Leased) (by simp [Pc.Leased])
            fun other distinct has => others ⟨other, distinct, has⟩
        have count := inv.leases_update handle (.unlockReleased ending)
        rw [Counting.count_eq_zero_iff.mpr none] at count
        simp only [at_pc, Pc.Leased, if_true] at count
        rcases inv.adapter init with adapter | ended | ⟨other, unfit⟩
        · have passive : active = false := by
            by_contra asks
            exact stays ⟨by simpa using asks, adapter, by omega⟩
          rcases inactive passive with lost | finalized
          · exact .inr (.inr ⟨handle, lost⟩)
          · rcases inv.world.ended finalized with ended | gone
            · exact .inl ended
            · exact absurd init (inv.world.foreign (inv.world.app gone)).2.1
        · exact .inl ended
        · have both : (state.pc other).Holds := by simp [unfit, Pc.Holds]
          have distinct : other ≠ handle := by
            rintro rfl
            simp [at_pc] at unfit
          exact absurd both (inv.exclusive.alone holds distinct)

/-- `state.initialized_by_adapter = false` -/
theorem Inv.clearAdapter (inv : Inv external state)
    (at_pc : state.pc handle = .clearAdapter ending) :
    Inv external
      { state.act handle { state.shared with initializedByAdapter := false }
          (.unlockReleased ending) with
        log := state.log ++ [] } := by
  have facts := inv.facts handle
  rw [at_pc] at facts
  obtain ⟨returned, ended⟩ := facts
  refine inv.operate (by simp [at_pc, Pc.Holds]) (by simp [at_pc, Pc.Leased])
    (.inl (by simp [at_pc, Pc.Holds])) (.inl rfl) (fun other _ => foreign_nil other) ?_ ?_
    (fun _ => .inl (by simpa using ended)) (fun _ => .inr (.inl (by simpa using ended)))
  · rw [List.append_nil]
    exact returned
  · rw [List.append_nil]
    exact inv.world.clearAdapter

attribute [local simp] Pc.Holds Pc.Leased Pc.Keeps

/-- Every operation keeps the invariant. -/
theorem Inv.operated {request : Request} {outcome : Outcome} (inv : Inv external state)
    (happened : MpiRuntime.operate request handle state.shared outcome (state.pc handle) =
      some (shared', calls, pc)) :
    Inv external { state.act handle shared' pc with log := state.log ++ calls } := by
  have facts := inv.facts handle
  -- Most operations change neither the runtime nor the log.
  have quiet {pc : Pc} (kind : (state.pc handle).Quiet pc)
      (after : Facts state.shared state.log handle pc) :
      Inv external { state.act handle state.shared pc with log := state.log ++ [] } :=
    inv.move (inv.exclusive.act kind.holds : Mutex.Exclusive Pc.Holds
      (state.act handle state.shared pc)) rfl (List.append_nil _) rfl after kind.leased kind.keeps
      kind.unfit
  cases at_pc : state.pc handle with
  | start =>
      rw [at_pc] at happened facts
      simp only [MpiRuntime.operate] at happened
      split at happened <;> cases happened
      · exact quiet (by constructor <;> simp [at_pc]) (Fresh.returned facts)
      · exact quiet (by constructor <;> simp [at_pc]) facts
  | queryInitialized =>
      rw [at_pc] at happened facts
      simp only [MpiRuntime.operate] at happened
      repeat' split at happened
      all_goals cases happened
      · exact quiet (by constructor <;> simp [at_pc]) facts
      · rename_i initialized
        exact quiet (by constructor <;> simp [at_pc]) ⟨facts, initialized⟩
      · rename_i uninitialized
        exact quiet (by constructor <;> simp [at_pc]) ⟨facts, by simpa using uninitialized⟩
  | initThread =>
      rw [at_pc] at happened facts
      cases outcome <;> cases happened
      · exact inv.init at_pc true
      · exact quiet (by constructor <;> simp [at_pc]) facts.1
      · exact quiet (by constructor <;> simp [at_pc]) facts.1
      · simpa using inv.init at_pc false
  | finalizeUnfit =>
      rw [at_pc] at happened facts
      cases happened
      obtain ⟨fresh, running, leases, init⟩ := facts
      refine inv.finalize (by simp [at_pc]) (by simp [at_pc]) running leases
        init trivial (by simp) ?_
      simpa [Facts, Fresh] using fresh
  | queryFinalized =>
      rw [at_pc] at happened facts
      simp only [MpiRuntime.operate] at happened
      split at happened <;> cases happened
      · exact quiet (by constructor <;> simp [at_pc]) facts.1
      · rename_i goes_on
        have running : state.shared.finalized = false := by
          by_contra finalized
          exact goes_on (.inr (by simpa using finalized))
        exact quiet (by constructor <;> simp [at_pc]) ⟨facts.1, facts.2, running⟩
  | grant =>
      rw [at_pc] at happened
      cases happened
      exact inv.grant at_pc
  | split =>
      rw [at_pc] at happened facts
      obtain ⟨fresh, running⟩ := facts
      simp only [MpiRuntime.operate] at happened
      split at happened <;> cases happened
      · exact quiet (by constructor <;> simp [at_pc]) ⟨fresh.2.1, fresh.2.2, fun _ => fresh.1⟩
      · refine inv.call (by simp [at_pc]) (by simp [at_pc]) trivial id
          (.inl running) id nofun fresh.1 (fun other distinct => ?_) ?_
        · simp [Foreign, distinct]
        · simpa [Facts, running] using fresh.2
  | build =>
      rw [at_pc] at happened facts
      obtain ⟨split, free, lost, running⟩ := facts
      simp only [MpiRuntime.operate] at happened
      split at happened <;> cases happened
      all_goals
        refine quiet (by constructor <;> simp [at_pc]) ?_
      all_goals first
        | exact ⟨free, lost, nofun⟩
        | exact ⟨split, free, lost⟩
  | live =>
      rw [at_pc] at happened facts
      cases happened
      exact quiet (by constructor <;> simp [at_pc]) ⟨facts.2.1, facts.2.2, nofun⟩
  | checkFinalized ending comm =>
      rw [at_pc] at happened facts
      obtain ⟨free, lost, unsplit⟩ := facts
      have leased : (state.pc handle).Leased := by simp [at_pc]
      simp only [MpiRuntime.operate] at happened
      repeat' split at happened
      all_goals cases happened
      · refine inv.call leased (by simp [at_pc]) trivial id (.inr ⟨handle, rfl⟩) id nofun
          lost (fun other distinct => ?_) ?_
        · simp [Foreign, distinct]
        · simp [Facts, Returned]
      · rename_i finalized
        refine quiet (by constructor <;> simp [at_pc]) ⟨fun _ => ?_, nofun, fun _ => .inr finalized⟩
        rcases inv.world.ended finalized with ended | gone
        · have none := inv.world.drained ended
          have some := inv.leases_pos leased
          omega
        · exact .inr (.inr gone)
      · rename_i running _
        exact quiet (by constructor <;> simp [at_pc]) ⟨free, by simpa using running⟩
      · rename_i running none
        exact quiet (by constructor <;> simp [at_pc])
          ⟨fun member => absurd member (unsplit (by simpa using none)),
            fun _ => by simpa using running, nofun⟩
  | free ending =>
      rw [at_pc] at happened facts
      cases happened
      obtain ⟨fresh, running⟩ := facts
      refine inv.call (by simp [at_pc]) (by simp [at_pc]) trivial id
        (.inl running) id nofun fresh (fun other distinct => ?_) ?_
      · simp [Foreign, distinct]
      · simp [Facts, Returned, running]
  | giveBack ending active =>
      rw [at_pc] at happened
      have given := inv.giveBack at_pc
      simp only [MpiRuntime.operate] at happened
      split at happened <;> rename_i last <;> cases happened
      · rwa [if_pos last] at given
      · rwa [if_neg last] at given
  | finalize ending =>
      rw [at_pc] at happened facts
      cases happened
      obtain ⟨returned, running, leases, adapter⟩ := facts
      refine inv.finalize (by simp [at_pc]) (by simp [at_pc]) running leases
        (inv.world.adapter adapter) trivial (by simp) ⟨?_, by simp⟩
      exact returned.append (by simp [Foreign])
  | clearAdapter ending =>
      rw [at_pc] at happened
      cases happened
      exact inv.clearAdapter at_pc
  | lockAcquire | lockRelease ending active | unlockGranted | unlockThrown
  | unlockReleased ending | done ending =>
      rw [at_pc] at happened
      cases happened

/-! ### Every run -/

theorem Inv.ran {requests : ι → Request} {outcome : Outcome} (inv : Inv external state)
    (ran : runHandle requests state handle outcome = some next) : Inv external next := by
  have facts := inv.facts handle
  unfold runHandle at ran
  split at ran
  case h_1 at_pc =>
      rw [at_pc] at facts
      have exclusive := inv.exclusive.acquire (show Pc.queryInitialized.Holds from trivial) ran
      obtain ⟨-, rfl⟩ := (state.acquire_eq_some handle _).mp ran
      exact inv.move exclusive rfl rfl rfl facts (by simp [at_pc]) (by simp [at_pc])
        (by simp [at_pc])
  case h_2 ending active at_pc =>
      rw [at_pc] at facts
      have exclusive := inv.exclusive.acquire (show (Pc.giveBack ending active).Holds from trivial)
        ran
      obtain ⟨-, rfl⟩ := (state.acquire_eq_some handle _).mp ran
      exact inv.move exclusive rfl rfl rfl facts (by simp [at_pc]) (by simp [at_pc])
        (by simp [at_pc])
  case h_3 at_pc =>
      rw [at_pc] at facts
      obtain rfl := Option.some.inj ran
      exact inv.move (inv.exclusive.release (by simp [at_pc]) id) rfl rfl rfl facts
        (by simp [at_pc]) (by simp [at_pc]) (by simp [at_pc])
  case h_4 at_pc =>
      rw [at_pc] at facts
      obtain rfl := Option.some.inj ran
      exact inv.move (inv.exclusive.release (by simp [at_pc]) id) rfl rfl rfl
        (Fresh.returned facts) (by simp [at_pc]) (by simp [at_pc]) (by simp [at_pc])
  case h_5 ending at_pc =>
      rw [at_pc] at facts
      obtain rfl := Option.some.inj ran
      exact inv.move (inv.exclusive.release (by simp [at_pc]) id) rfl rfl rfl facts
        (by simp [at_pc]) (by simp [at_pc]) (by simp [at_pc])
  case h_6 =>
      obtain ⟨⟨shared, calls, pc⟩, happened, rfl⟩ := Option.map_eq_some_iff.mp ran
      exact inv.operated happened

omit [DecidableEq ι] in
/-- The application finalizes MPI while no call of the adapter is running. -/
theorem Inv.appFinalized (inv : Inv true state) (running : state.shared.finalized = false)
    (outside : ∀ handle, (state.pc handle).Outside) :
    Inv true
      { state with
        shared := { state.shared with finalized := true }
        log := state.log ++ [.appFinalize] } := by
  have uninitialized : .init ∉ state.log ++ [.appFinalize] := by
    simpa using (inv.world.foreign rfl).2.1
  constructor
  case exclusive => exact inv.exclusive
  case leases => exact inv.leases
  case facts =>
    intro handle
    have foreign : Foreign [.appFinalize] handle := by simp [Foreign]
    refine ((inv.facts handle).append foreign).frame ?_ (.inr (.inr (outside handle)))
    have := outside handle
    cases at_pc : state.pc handle <;> simp_all [Pc.Outside]
  case world => exact inv.world.appFinalize running
  case kept => exact fun init => absurd init uninitialized
  case adapter => exact fun init => absurd init uninitialized

theorem inv_step {requests : ι → Request} {label : Label ι} (inv : Inv external state)
    (stepped : step external requests state label = some next) : Inv external next := by
  cases label with
  | run handle outcome => exact inv.ran stepped
  | appFinalize =>
      simp only [step] at stepped
      split at stepped
      · rename_i allowed
        obtain ⟨rfl, running, outside⟩ := allowed
        obtain rfl := Option.some.inj stepped
        exact inv.appFinalized running outside
      · cases stepped

omit [DecidableEq ι] in
/-- After the adapter has finalized MPI every communicator it has split off is freed. -/
theorem Inv.freed (inv : Inv external state) (ended : .finalize ∈ state.log)
    (split : .split handle ∈ state.log) : .free handle ∈ state.log ∨ .lost handle ∈ state.log := by
  have facts := inv.facts handle
  have unleased : ¬ (state.pc handle).Leased := fun leased => by
    have none := inv.world.drained ended
    have some := inv.leases_pos leased
    omega
  have settled (returned : Returned state.log handle) :
      .free handle ∈ state.log ∨ .lost handle ∈ state.log := by
    rcases returned split with freed | lost | gone
    · exact .inl freed
    · exact .inr lost
    · exact absurd ended (inv.world.foreign (inv.world.app gone)).2.2
  cases at_pc : state.pc handle <;> rw [at_pc] at facts unleased <;> first
    | exact absurd trivial unleased
    | exact absurd split facts.1
    | exact absurd split facts.1.1
    | exact settled facts.1
    | exact settled facts

/-- What the callers of the adapter and of MPI may rely on. -/
structure Orderly (external : Bool) (state : State ι) : Prop where
  /-- The leases are those of the handles that have one. -/
  leases : state.shared.leases = Counting.count Pc.Leased state.pc
  /-- Nothing but a failing query follows the end of MPI. -/
  last : state.log.Pairwise fun earlier later => earlier.Ends → ∃ handle, later = .lost handle
  /-- An MPI that the application has not initialized is initialized before anything else. -/
  begins : external = false → ∀ call ∈ state.log.head?, call = .init
  /-- It is initialized no second time. -/
  first : state.log.Pairwise fun _ later => later ≠ .init
  /-- No call is made twice. -/
  nodup : state.log.Nodup
  /-- An MPI that belongs to the application is neither initialized nor finalized. -/
  foreign : external = true → .init ∉ state.log ∧ .finalize ∉ state.log
  /-- MPI is not finalized before the communicators are freed. -/
  freed : .finalize ∈ state.log → ∀ handle, .split handle ∈ state.log →
    .free handle ∈ state.log ∨ .lost handle ∈ state.log
  /-- When all handles are gone, nothing is left. -/
  drained : (∀ handle, state.pc handle = .start ∨ ∃ ending, state.pc handle = .done ending) →
    state.shared.leases = 0 ∧ (∀ handle, Returned state.log handle) ∧
      (.init ∈ state.log → .finalize ∈ state.log ∨ ∃ handle, .lost handle ∈ state.log)

omit [DecidableEq ι] in
theorem Inv.orderly (inv : Inv external state) : Orderly external state where
  leases := inv.leases
  last := inv.world.last
  begins := by
    intro own call first
    cases initialized : state.shared.initialized with
    | true => exact Option.some.inj (first.symm.trans (inv.world.begun own initialized))
    | false => simp [(inv.world.untouched initialized).1] at first
  first := inv.world.first
  nodup := inv.world.nodup
  foreign := fun foreign => (inv.world.foreign foreign).2
  freed := fun ended _ split => inv.freed ended split
  drained := by
    intro gone
    refine ⟨?_, fun handle => ?_, fun init => ?_⟩
    · rw [inv.leases, Counting.count_eq_zero_iff]
      intro handle
      rcases gone handle with at_pc | ⟨ending, at_pc⟩ <;> simp [at_pc]
    · have facts := inv.facts handle
      rcases gone handle with at_pc | ⟨ending, at_pc⟩ <;> rw [at_pc] at facts
      · exact Fresh.returned facts
      · exact facts
    · rcases inv.kept init with ended | ⟨handle, keeps⟩ | lost
      · exact .inl ended
      · rcases gone handle with at_pc | ⟨ending, at_pc⟩ <;> simp [at_pc] at keeps
      · exact .inr lost

/-- In every interleaving of creations and destructions, failing or not, the adapter keeps its
leases and the MPI runtime in order. -/
theorem mpi_leases_orderly (external : Bool) (requests : ι → Request) (state : State ι)
    (reach : StepSystem.Reachable (step external requests) (initial external) state) :
    Orderly external state := by
  have inv : Inv external state := StepSystem.Reachable.invariant (Inv external)
    (fun _ _ _ inv stepped => inv_step inv stepped) (inv_initial external) reach
  exact inv.orderly

/-- Two creations; the second one names no transport. -/
def overlappingRequests (second : Bool) : Request where
  hasOutput := true
  hasConfig := true
  color := 0
  key := 0
  transport := if second then 9 else 0

/-- The failing creation overlaps the destruction of the other handle. -/
def overlappingRun : List (Label Bool) :=
  let run := fun handle count => List.replicate count (Label.run handle .ok)
  List.flatten [run false 6, run true 1, run false 2, run true 6, run false 3, run true 6,
    run false 5]

theorem mpi_leases_orderly_overlapping : ∃ state : State Bool,
    StepSystem.exec (step false overlappingRequests) (initial false) overlappingRun = some state ∧
      state.log = [.init, .split false, .split true, .free false, .free true, .finalize] ∧
        state.shared.leases = 0 := by
  have run : (StepSystem.exec (step false overlappingRequests) (initial false) overlappingRun).map
      (fun state => (state.log, state.pc false, state.pc true)) =
        some ([.init, .split false, .split true, .free false, .free true, .finalize],
          .done .destroyed, .done (.failed .invalidArgument)) := by
    decide +kernel
  obtain ⟨state, execution, seen⟩ := Option.map_eq_some_iff.mp run
  obtain ⟨log, pcs⟩ := Prod.mk.inj seen
  obtain ⟨first, second⟩ := Prod.mk.inj pcs
  have orderly := mpi_leases_orderly false overlappingRequests state ⟨_, execution⟩
  refine ⟨state, execution, log, (orderly.drained fun handle => ?_).1⟩
  cases handle with
  | false => exact .inr ⟨_, first⟩
  | true => exact .inr ⟨_, second⟩

end MpiRuntime
end NanoNccl
