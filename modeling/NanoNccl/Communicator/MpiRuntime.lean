import Mathlib.Data.Fintype.Basic
import NanoNccl.Bootstrap.Topology
import NanoNccl.Lib.Mutex

/-!
# Leases of the MPI runtime

The C interface initializes MPI when the application has not, and finalizes it again when its last
communicator goes away. Creations and destructions may run on any threads: `acquire_mpi` holds a
mutex over its whole body, `release_mpi` frees the communicator first and takes the mutex to give
its lease back. Here a handle is followed from its creation to its destruction, next to any number
of others, and the MPI calls that change something are logged.
-/

namespace NanoNccl
namespace MpiRuntime

/-- `nano_nccl_status_t` -/
inductive Status
  | success
  | invalidArgument
  | unsupported
  | error
  deriving DecidableEq, Repr

/-- The arguments of `nano_nccl_create_mpi_subgroup_communicator`. -/
structure Request where
  /-- `output` is not null. -/
  hasOutput : Bool
  /-- `config` is not null. -/
  hasConfig : Bool
  color : Int32
  key : Int32
  /-- `nano_nccl_transport_t` -/
  transport : Int32
  deriving DecidableEq, Repr

/-- The checks in front of `acquire_mpi`. -/
def Request.validate (request : Request) : Except String Unit :=
  if !request.hasOutput then .error "communicator output must be non-null"
  else if !request.hasConfig then .error "MPI subgroup config must be non-null"
  else if request.color < 0 ∨ request.key < 0 then
    .error "MPI subgroup color and key must be non-negative"
  else .ok ()

/-- `to_cpp_transport`, which throws `std::invalid_argument` on every other code. -/
def toCppTransport (transport : Int32) : Option Bootstrap.TransportKind :=
  if transport = 0 then some .auto
  else if transport = 1 then some .shm
  else if transport = 2 then some .p2p
  else if transport = 3 then some .socket
  else if transport = 4 then some .rdma
  else none

/-- How the life of a handle ends. -/
inductive Ending
  /-- The creation failed with a status. -/
  | failed (status : Status)
  /-- `nano_nccl_destroy_communicator` -/
  | destroyed
  deriving DecidableEq, Repr

/-- Next operation on a handle. -/
inductive Pc
  /-- The creation is not called yet. -/
  | start
  /-- `acquire_mpi` takes the mutex. -/
  | lockAcquire
  /-- `MPI_Initialized` -/
  | queryInitialized
  /-- `MPI_Init_thread` -/
  | initThread
  /-- `MPI_Finalize`, without `MPI_THREAD_FUNNELED`. -/
  | finalizeUnfit
  /-- `MPI_Finalized` of `acquire_mpi`. -/
  | queryFinalized
  /-- `++state.leases` -/
  | grant
  /-- `acquire_mpi` returns. -/
  | unlockGranted
  /-- `acquire_mpi` throws. -/
  | unlockThrown
  /-- `MPI_Comm_split` -/
  | split
  /-- `to_cpp_transport` and `create_communicator_from_mpi` -/
  | build
  /-- The handle belongs to the caller. -/
  | live
  /-- `MPI_Finalized` of `release_mpi`; `comm` tells whether there is a communicator to free. -/
  | checkFinalized (ending : Ending) (comm : Bool)
  /-- `MPI_Comm_free` -/
  | free (ending : Ending)
  /-- `release_mpi` takes the mutex. -/
  | lockRelease (ending : Ending) (active : Bool)
  /-- `--state.leases` and the test for the last lease. -/
  | giveBack (ending : Ending) (active : Bool)
  /-- `MPI_Finalize` -/
  | finalize (ending : Ending)
  /-- `state.initialized_by_adapter = false` -/
  | clearAdapter (ending : Ending)
  /-- `release_mpi` returns. -/
  | unlockReleased (ending : Ending)
  /-- The creation has failed, or the handle is destroyed. -/
  | done (ending : Ending)
  deriving DecidableEq, Repr

/-- The operation is inside a critical section. -/
def Pc.Holds : Pc → Prop
  | .queryInitialized | .initThread | .finalizeUnfit | .queryFinalized | .grant | .unlockGranted
  | .unlockThrown | .giveBack _ _ | .finalize _ | .clearAdapter _ | .unlockReleased _ => True
  | .start | .lockAcquire | .split | .build | .live | .checkFinalized _ _ | .free _
  | .lockRelease _ _ | .done _ => False

/-- The handle has a lease. -/
def Pc.Leased : Pc → Prop
  | .unlockGranted | .split | .build | .live | .checkFinalized _ _ | .free _ | .lockRelease _ _
  | .giveBack _ _ => True
  | .start | .lockAcquire | .queryInitialized | .initThread | .finalizeUnfit | .queryFinalized
  | .grant | .unlockThrown | .finalize _ | .clearAdapter _ | .unlockReleased _ | .done _ => False

/-- No call on the handle is running. -/
def Pc.Outside : Pc → Prop
  | .start | .live | .done _ => True
  | _ => False

instance : DecidablePred Pc.Holds := fun pc => by cases pc <;> unfold Pc.Holds <;> infer_instance

instance : DecidablePred Pc.Leased := fun pc => by
  cases pc <;> unfold Pc.Leased <;> infer_instance

instance : DecidablePred Pc.Outside := fun pc => by
  cases pc <;> unfold Pc.Outside <;> infer_instance

/-- `MpiRuntimeState` with the state of MPI itself. -/
structure Runtime where
  /-- What `MPI_Initialized` answers. -/
  initialized : Bool
  /-- What `MPI_Finalized` answers. -/
  finalized : Bool
  /-- `leases` -/
  leases : ℕ
  /-- `initialized_by_adapter` -/
  initializedByAdapter : Bool
  deriving DecidableEq, Repr

/-- Logged calls. -/
inductive Call (ι : Type*)
  /-- `MPI_Init_thread` of the adapter. -/
  | init
  /-- `MPI_Comm_split` for a handle. -/
  | split (handle : ι)
  /-- `MPI_Comm_free` for a handle. -/
  | free (handle : ι)
  /-- The `MPI_Finalized` of `release_mpi` failed. -/
  | lost (handle : ι)
  /-- `MPI_Finalize` of the adapter. -/
  | finalize
  /-- `MPI_Finalize` of the application. -/
  | appFinalize
  deriving DecidableEq, Repr

/-- MPI is finalized. -/
def Call.Ends {ι : Type*} : Call ι → Prop
  | .finalize | .appFinalize => True
  | .init | .split _ | .free _ | .lost _ => False

/-- What MPI, or the code the adapter calls, answers to an operation. -/
inductive Outcome
  | ok
  /-- An MPI call fails, or `create_communicator_from_mpi` throws. -/
  | fails
  /-- `create_communicator_from_mpi` throws `std::invalid_argument`. -/
  | rejects
  /-- `MPI_Init_thread` provides less than `MPI_THREAD_FUNNELED`. -/
  | unfit
  deriving DecidableEq, Repr

/-- The handles and the runtime. -/
abbrev State (ι : Type*) := Mutex.State ι Pc Runtime (Call ι)

variable {ι : Type*}

/-- Before the first call; the application may have initialized MPI. -/
def initial (external : Bool) : State ι where
  shared :=
    { initialized := external, finalized := false, leases := 0, initializedByAdapter := false }
  mutex := none
  pc := fun _ => .start
  log := []

/-- Steps of the system. -/
inductive Label (ι : Type*)
  /-- The next operation on a handle. -/
  | run (handle : ι) (outcome : Outcome)
  /-- The application calls `MPI_Finalize`. -/
  | appFinalize
  deriving DecidableEq, Repr

/-- An operation that neither takes nor frees the mutex: the runtime after it, what is logged, and
the next operation. -/
def operate (request : Request) (handle : ι) (shared : Runtime) (outcome : Outcome) :
    Pc → Option (Runtime × List (Call ι) × Pc)
  | .start =>
      match request.validate with
      | .error _ => some (shared, [], .done (.failed .invalidArgument))
      | .ok _ => some (shared, [], .lockAcquire)
  | .queryInitialized =>
      if outcome = .fails then some (shared, [], .unlockThrown)
      else if shared.initialized then some (shared, [], .queryFinalized)
      else some (shared, [], .initThread)
  | .initThread =>
      match outcome with
      | .ok =>
          some ({ shared with initialized := true, initializedByAdapter := true }, [.init], .grant)
      | .unfit => some ({ shared with initialized := true }, [.init], .finalizeUnfit)
      | .fails | .rejects => some (shared, [], .unlockThrown)
  | .finalizeUnfit => some ({ shared with finalized := true }, [.finalize], .unlockThrown)
  | .queryFinalized =>
      if outcome = .fails ∨ shared.finalized then some (shared, [], .unlockThrown)
      else some (shared, [], .grant)
  | .grant => some ({ shared with leases := shared.leases + 1 }, [], .unlockGranted)
  | .split =>
      if outcome = .fails then some (shared, [], .checkFinalized (.failed .error) false)
      else some (shared, [.split handle], .build)
  | .build =>
      match toCppTransport request.transport, outcome with
      | none, _ => some (shared, [], .checkFinalized (.failed .invalidArgument) true)
      | some _, .fails => some (shared, [], .checkFinalized (.failed .error) true)
      | some _, .rejects => some (shared, [], .checkFinalized (.failed .invalidArgument) true)
      | some _, .ok | some _, .unfit => some (shared, [], .live)
  | .live => some (shared, [], .checkFinalized .destroyed true)
  | .checkFinalized ending comm =>
      if outcome = .fails then some (shared, [.lost handle], .lockRelease ending false)
      else if shared.finalized then some (shared, [], .lockRelease ending false)
      else if comm then some (shared, [], .free ending)
      else some (shared, [], .lockRelease ending true)
  | .free ending => some (shared, [.free handle], .lockRelease ending true)
  | .giveBack ending active =>
      let leases := shared.leases - 1
      if active ∧ shared.initializedByAdapter ∧ leases = 0 then
        some ({ shared with leases }, [], .finalize ending)
      else some ({ shared with leases }, [], .unlockReleased ending)
  | .finalize ending => some ({ shared with finalized := true }, [.finalize], .clearAdapter ending)
  | .clearAdapter ending =>
      some ({ shared with initializedByAdapter := false }, [], .unlockReleased ending)
  | .lockAcquire | .lockRelease _ _ | .unlockGranted | .unlockThrown | .unlockReleased _
  | .done _ => none

variable [DecidableEq ι]

/-- The next operation on a handle. -/
def runHandle (requests : ι → Request) (state : State ι) (handle : ι) (outcome : Outcome) :
    Option (State ι) :=
  match state.pc handle with
  | .lockAcquire => state.acquire handle .queryInitialized
  | .lockRelease ending active => state.acquire handle (.giveBack ending active)
  | .unlockGranted => some (state.release handle .split)
  | .unlockThrown => some (state.release handle (.done (.failed .error)))
  | .unlockReleased ending => some (state.release handle (.done ending))
  | pc =>
      (operate (requests handle) handle state.shared outcome pc).map fun (shared, calls, next) =>
        { state.act handle shared next with log := state.log ++ calls }

/-- One step. The application finalizes MPI only where it has initialized it, once, and while no
call of the adapter is running. -/
def step [Fintype ι] (external : Bool) (requests : ι → Request) (state : State ι) :
    Label ι → Option (State ι)
  | .run handle outcome => runHandle requests state handle outcome
  | .appFinalize =>
      if external = true ∧ state.shared.finalized = false ∧
          ∀ handle, (state.pc handle).Outside then
        some
          { state with
            shared := { state.shared with finalized := true }
            log := state.log ++ [.appFinalize] }
      else none

end MpiRuntime
end NanoNccl
