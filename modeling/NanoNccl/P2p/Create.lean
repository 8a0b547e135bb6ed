import Mathlib.Logic.Function.Basic
import NanoNccl.Bootstrap.Topology
import NanoNccl.Lib.Execution

/-!
# CUDA IPC connections

`create_mpi_p2p_connections` exports the device memory a rank receives through and opens the memory
of the next rank, and an `MpiP2pOwner` takes both down. A word in a POSIX shared memory file tells
the exporting rank that its predecessor has closed the mapping. The ranks run side by side; every
call to CUDA or the OS may fail, and MPI calls succeed.
-/

namespace NanoNccl
namespace P2p

open Bootstrap (TransportKind receiver incomingEdge)

/-- The parts of the name of a control file. -/
structure ControlName where
  pid : ℕ
  globalRank : ℕ
  sequence : ℕ
  deriving DecidableEq, Repr

/-- A control file, which holds one word. -/
inductive ControlFile (n : ℕ)
  /-- The one that a rank creates. -/
  | created (rank : Fin n)
  /-- One that an earlier process has left. -/
  | stale (name : ControlName)
  deriving DecidableEq, Repr

/-- Ranks on one host. -/
structure Host (n : ℕ) where
  two_le : 2 ≤ n
  edgeKinds : Fin n → TransportKind
  /-- `getpid()` -/
  pid : Fin n → ℕ
  /-- `sequence` before the call. -/
  sequence : Fin n → ℕ
  /-- Names that are in use before the call. -/
  stale : ControlName → Bool

variable {n : ℕ} (host : Host n)

/-- `has_incoming` -/
def Host.hasIncoming (rank : Fin n) : Bool := decide (host.edgeKinds (incomingEdge rank) = .p2p)

/-- `has_outgoing` -/
def Host.hasOutgoing (rank : Fin n) : Bool := decide (host.edgeKinds rank = .p2p)

/-- The collectives of `create_mpi_p2p_connections`. -/
inductive Collective
  /-- "MPI_Allgather(CUDA IPC handles)" -/
  | handles
  /-- "MPI_Allgather(CUDA IPC close controls)" -/
  | controls
  /-- "MPI_Allreduce(CUDA IPC allocation)" -/
  | allocation
  /-- `gather_first_error` behind the allocation. -/
  | allocationErrors
  /-- "MPI_Allreduce(CUDA IPC mapping)" -/
  | mapping
  /-- "MPI_Allgather(CUDA IPC opened edges)" -/
  | opened
  /-- `gather_first_error` behind the mapping. -/
  | mappingErrors
  /-- "MPI_Barrier(CUDA IPC initialize)" -/
  | barrier
  deriving DecidableEq, Repr

/-- What a rank contributes to a collective. -/
inductive Contribution (n : ℕ)
  /-- `local_handle`: the rank whose region it is for, if it was set. -/
  | handle (region : Option (Fin n))
  /-- `local_control_name`, if it was set. -/
  | name (name : Option ControlName)
  /-- `local_ok` -/
  | vote (ok : Bool)
  /-- `opened_outgoing` -/
  | opened (opened : Bool)
  /-- Nothing that the model uses. -/
  | nothing
  deriving DecidableEq, Repr

/-- The device memory that a rank allocates. -/
inductive Region
  | unallocated
  | allocated
  | freed
  deriving DecidableEq, Repr

/-- The mapping that a rank opens of the region of another one. -/
inductive Mapping (n : ℕ)
  | never
  | opened (exporter : Fin n)
  | closed (exporter : Fin n)
  deriving DecidableEq, Repr

/-- `MpiP2pOwner`; a region is named by the rank that has allocated it. -/
structure MpiP2pOwner (n : ℕ) where
  localRegion : Option (Fin n)
  remoteRegion : Option (Fin n)
  localControlName : Option ControlName
  localCloseControl : Option (ControlFile n)
  remoteCloseControl : Option (ControlFile n)
  waitForClose : Bool
  deriving DecidableEq, Repr

/-- Where a rank stands. -/
inductive Pc (n : ℕ)
  /-- `cudaMalloc` -/
  | allocate
  /-- `cudaMemset` and `cudaIpcGetMemHandle`. -/
  | exportRegion
  /-- `shm_open` in an attempt of `create_close_control`. -/
  | openControl (attempt : ℕ)
  /-- `ftruncate` -/
  | sizeControl (name : ControlName)
  /-- `mmap` in `create_close_control`. -/
  | mapControl (name : ControlName)
  /-- Before a collective. -/
  | enter (collective : Collective)
  /-- In a collective. -/
  | inside (collective : Collective)
  /-- `shm_open` in `open_close_control`. -/
  | openPeer
  /-- `mmap` in `open_close_control`. -/
  | mapPeer (file : ControlFile n)
  /-- `cudaIpcOpenMemHandle` -/
  | openRegion
  /-- Behind it, where a test build may inject a failure. -/
  | opened
  /-- `unlink_local_control` -/
  | unlink
  /-- `create_mpi_p2p_connections` has returned, and the owner is alive. -/
  | live
  /-- The head of `~MpiP2pOwner`, with `cudaIpcCloseMemHandle`. -/
  | close
  /-- Store to the remote control word. -/
  | signal
  /-- The loop that waits for the local control word. -/
  | wait
  /-- The load behind the loop. -/
  | reload
  /-- The test of `sender_closed` and `cudaFree`. -/
  | free (senderClosed : Bool)
  /-- `unmap_control` and `shm_unlink`. -/
  | unmap
  /-- Without an owner. -/
  | gone
  deriving DecidableEq, Repr

/-- State of a rank, with its memory and its mapping. -/
structure Process (n : ℕ) where
  pc : Pc n
  owner : MpiP2pOwner n
  /-- `local_handle` -/
  localHandle : Option (Fin n)
  /-- `local_control_name` -/
  controlName : Option ControlName
  localOk : Bool
  allOk : Bool
  /-- `outgoing_region` -/
  outgoingRegion : Option (Fin n)
  /-- `sequence` in `create_close_control`. -/
  sequence : ℕ
  region : Region
  mapping : Mapping n
  /-- Its contributions so far. -/
  sent : Collective → Option (Contribution n)

/-- All ranks and the control files. -/
structure State (n : ℕ) where
  processes : Fin n → Process n
  /-- Names of shared memory files. -/
  names : ControlName → Option (ControlFile n)
  words : ControlFile n → ℕ

/-- Before the call. -/
def initial : State n where
  processes := fun rank =>
    { pc := if ∃ edge, host.edgeKinds edge = .p2p then .allocate else .gone
      owner := ⟨none, none, none, none, none, false⟩
      localHandle := none
      controlName := none
      localOk := true
      allOk := false
      outgoingRegion := none
      sequence := host.sequence rank
      region := .unallocated
      mapping := .never
      sent := fun _ => none }
  names := fun name => if host.stale name then some (.stale name) else none
  words := fun _ => 0

/-- Move to another program point. -/
def Process.goto (process : Process n) (pc : Pc n) : Process n := { process with pc := pc }

/-- A `catch` block that leads to a collective. -/
def Process.fail (process : Process n) (collective : Collective) : Process n :=
  { process with pc := .enter collective, localOk := false }

/-- What the rank contributes. -/
def Process.contribution (process : Process n) : Collective → Contribution n
  | .handles => .handle process.localHandle
  | .controls => .name process.controlName
  | .allocation | .mapping => .vote process.localOk
  | .opened => .opened process.outgoingRegion.isSome
  | .allocationErrors | .mappingErrors | .barrier => .nothing

/-- Change one rank. -/
def State.set (state : State n) (rank : Fin n) (process : Process n) : State n :=
  { state with processes := Function.update state.processes rank process }

/-- `shm_unlink`, which may fail. -/
def State.unlink (state : State n) (name : ControlName) (unlinks : Bool) : State n :=
  if unlinks then { state with names := Function.update state.names name none } else state

@[simp] theorem State.processes_unlink (state : State n) (name : ControlName) (unlinks : Bool) :
    (state.unlink name unlinks).processes = state.processes := by
  rw [State.unlink]
  split <;> rfl

@[simp] theorem State.words_unlink (state : State n) (name : ControlName) (unlinks : Bool) :
    (state.unlink name unlinks).words = state.words := by
  rw [State.unlink]
  split <;> rfl

theorem State.names_unlink_of_ne (state : State n) {name other : ControlName} (apart : other ≠ name)
    (unlinks : Bool) : (state.unlink name unlinks).names other = state.names other := by
  rw [State.unlink]
  split
  · exact Function.update_of_ne apart _ _
  · rfl

/-- The contributions of all ranks. -/
def State.sent (state : State n) (rank : Fin n) : Collective → Option (Contribution n) :=
  (state.processes rank).sent

/-- All ranks have voted for going on. -/
def AllVoted (sent : Fin n → Collective → Option (Contribution n)) (vote : Collective) : Prop :=
  ∀ rank, sent rank vote = some (.vote true)

instance (sent : Fin n → Collective → Option (Contribution n)) (vote : Collective) :
    Decidable (AllVoted sent vote) :=
  inferInstanceAs (Decidable (∀ _, _))

/-- All ranks have entered a collective. -/
def AllEntered (sent : Fin n → Collective → Option (Contribution n)) (collective : Collective) :
    Prop :=
  ∀ rank, (sent rank collective).isSome = true

instance (sent : Fin n → Collective → Option (Contribution n)) (collective : Collective) :
    Decidable (AllEntered sent collective) :=
  inferInstanceAs (Decidable (∀ _, _))

/-- What a rank does behind a collective. -/
def Process.leave (process : Process n) (rank : Fin n)
    (sent : Fin n → Collective → Option (Contribution n)) : Collective → Process n
  | .handles => process.goto (.enter .controls)
  | .controls => process.goto (.enter .allocation)
  | .allocation =>
      if AllVoted sent .allocation then process.goto .openPeer
      else process.goto (.enter .allocationErrors)
  | .allocationErrors => process.goto .close
  | .mapping =>
      { process with pc := .enter .opened, allOk := decide (AllVoted sent .mapping) }
  | .opened =>
      { process with
        pc := .enter (if process.allOk then .barrier else .mappingErrors)
        owner :=
          if host.hasIncoming rank then
            -- `arm_local_close_wait`
            { process.owner with
              waitForClose := decide (sent (incomingEdge rank) .opened = some (.opened true)) }
          else process.owner }
  | .mappingErrors => process.goto .close
  | .barrier => process.goto .unlink

/-- One action of a rank; `ok` says whether its call succeeds, `unlinks` the same of a `shm_unlink`
that its clean-up makes. -/
def act (state : State n) (rank : Fin n) (ok unlinks : Bool) : Option (State n) :=
  let process := state.processes rank
  match process.pc with
  | .allocate =>
      if host.hasIncoming rank then
        if ok then
          some (state.set rank
            { process with
              pc := .exportRegion
              owner := { process.owner with localRegion := some rank }
              region := .allocated })
        else some (state.set rank (process.fail .handles))
      else some (state.set rank (process.goto (.enter .handles)))
  | .exportRegion =>
      if ok then
        some (state.set rank { process with pc := .openControl 0, localHandle := some rank })
      else some (state.set rank (process.fail .handles))
  | .openControl attempt =>
      let name : ControlName := ⟨host.pid rank, rank, process.sequence⟩
      let next := { process with sequence := process.sequence + 1 }
      if attempt < 32 then
        if ok then
          match state.names name with
          | none =>
              some
                { state.set rank (next.goto (.sizeControl name)) with
                  names := Function.update state.names name (some (.created rank)) }
          | some _ => some (state.set rank (next.goto (.openControl (attempt + 1))))
        else some (state.set rank (next.fail .handles))
      else some (state.set rank (process.fail .handles))
  | .sizeControl name =>
      if ok then some (state.set rank (process.goto (.mapControl name)))
      else some ((state.set rank (process.fail .handles)).unlink name unlinks)
  | .mapControl name =>
      if ok then
        some
          { state.set rank
              { process with
                pc := .enter .handles
                controlName := some name
                owner :=
                  { process.owner with
                    localControlName := some name
                    localCloseControl := some (.created rank) } } with
            words := Function.update state.words (.created rank) 0 }
      else some ((state.set rank (process.fail .handles)).unlink name unlinks)
  | .enter collective =>
      some (state.set rank
        { process with
          pc := .inside collective
          sent := Function.update process.sent collective
            (some (process.contribution collective)) })
  | .inside collective =>
      if AllEntered state.sent collective then
        some (state.set rank (process.leave host rank state.sent collective))
      else none
  | .openPeer =>
      if host.hasOutgoing rank then
        match state.sent (receiver rank) .controls with
        | some (.name (some name)) =>
            match ok, state.names name with
            | true, some file => some (state.set rank (process.goto (.mapPeer file)))
            | _, _ => some (state.set rank (process.fail .mapping))
        | _ => some (state.set rank (process.fail .mapping))
      else some (state.set rank (process.goto (.enter .mapping)))
  | .mapPeer file =>
      if ok then
        some (state.set rank
          { process with
            pc := .openRegion
            owner := { process.owner with remoteCloseControl := some file } })
      else some (state.set rank (process.fail .mapping))
  | .openRegion =>
      match ok, state.sent (receiver rank) .handles with
      | true, some (.handle (some exporter)) =>
          some (state.set rank
            { process with
              pc := .opened
              owner := { process.owner with remoteRegion := some exporter }
              outgoingRegion := some exporter
              mapping := .opened exporter })
      | _, _ => some (state.set rank (process.fail .mapping))
  | .opened =>
      if ok then some (state.set rank (process.goto (.enter .mapping)))
      else some (state.set rank (process.fail .mapping))
  | .unlink =>
      match process.owner.localControlName with
      | none => some (state.set rank (process.goto .live))
      | some name =>
          some ((state.set rank
            { process with
              pc := .live
              owner := { process.owner with localControlName := none } }).unlink name unlinks)
  | .close =>
      match process.owner.remoteRegion with
      | none => some (state.set rank (process.goto .wait))
      | some exporter =>
          let owner := { process.owner with remoteRegion := none }
          if ok then
            some (state.set rank
              { process with
                pc := if owner.remoteCloseControl.isSome then .signal else .wait
                owner := owner
                mapping := .closed exporter })
          else some (state.set rank { process with pc := .wait, owner := owner })
  | .signal =>
      match process.owner.remoteCloseControl with
      | none => some (state.set rank (process.goto .wait))
      | some file =>
          some { state.set rank (process.goto .wait) with
            words := Function.update state.words file 1 }
  | .wait =>
      if process.owner.waitForClose then
        match process.owner.localCloseControl with
        | none => some (state.set rank (process.goto (.free false)))
        | some file =>
            if state.words file = 0 then none else some (state.set rank (process.goto .reload))
      else some (state.set rank (process.goto (.free true)))
  | .reload =>
      match process.owner.localCloseControl with
      | none => some (state.set rank (process.goto (.free false)))
      | some file =>
          some (state.set rank (process.goto (.free (decide (state.words file ≠ 0)))))
  | .free senderClosed =>
      if process.owner.localRegion.isSome ∧ senderClosed = true then
        some (state.set rank
          { process with
            pc := .unmap
            owner := { process.owner with localRegion := none }
            region := if ok then .freed else process.region })
      else some (state.set rank (process.goto .unmap))
  | .unmap =>
      let owner := { process.owner with localCloseControl := none, remoteCloseControl := none }
      match process.owner.localControlName with
      | none => some (state.set rank { process with pc := .gone, owner := owner })
      | some name => some ((state.set rank { process with pc := .gone, owner := owner }).unlink name
          unlinks)
  | .live | .gone => none

/-- The two seconds of `kCloseTimeout` are over, and the word was still 0. -/
def timeOut (state : State n) (rank : Fin n) : Option (State n) :=
  let process := state.processes rank
  match process.pc, process.owner.localCloseControl with
  | .wait, some file =>
      if process.owner.waitForClose ∧ state.words file = 0 then
        some (state.set rank (process.goto .reload))
      else none
  | _, _ => none

/-- Somebody destroys the owner that `create_mpi_p2p_connections` has returned. -/
def destroy (state : State n) (rank : Fin n) : Option (State n) :=
  match (state.processes rank).pc with
  | .live => some (state.set rank ((state.processes rank).goto .close))
  | _ => none

/-- One move. -/
inductive Label (n : ℕ)
  | act (rank : Fin n) (ok unlinks : Bool)
  | timeOut (rank : Fin n)
  | destroy (rank : Fin n)
  deriving DecidableEq, Repr

/-- The rank that moves. -/
def Label.rank : Label n → Fin n
  | .act rank _ _ | .timeOut rank | .destroy rank => rank

/-- The transition function. -/
def step (state : State n) : Label n → Option (State n)
  | .act rank ok unlinks => act host state rank ok unlinks
  | .timeOut rank => timeOut state rank
  | .destroy rank => destroy state rank

section Step

variable {host} {state next : State n}

/-- An action changes only the rank that takes it. -/
theorem act_processes {rank : Fin n} {ok unlinks : Bool}
    (taken : act host state rank ok unlinks = some next) :
    ∃ process, next.processes = Function.update state.processes rank process := by
  cases at_pc : (state.processes rank).pc <;> simp only [act, at_pc] at taken <;>
    (repeat' split at taken) <;>
      first
      | cases taken; done
      | (obtain rfl := Option.some.inj taken
         exact ⟨_, by simp [State.set]; rfl⟩)

theorem step_processes {label : Label n} (taken : step host state label = some next) :
    ∃ process, next.processes = Function.update state.processes label.rank process := by
  cases label with
  | act rank ok unlinks => exact act_processes taken
  | timeOut rank =>
      simp only [step, timeOut] at taken
      split at taken
      · split at taken
        · obtain rfl := Option.some.inj taken
          exact ⟨_, rfl⟩
        · cases taken
      · cases taken
  | destroy rank =>
      simp only [step, destroy] at taken
      split at taken
      · obtain rfl := Option.some.inj taken
        exact ⟨_, rfl⟩
      · cases taken

end Step

/-- The states that calls of `create_mpi_p2p_connections` and destructions of the owners reach. -/
def IsReachable (state : State n) : Prop :=
  StepSystem.Reachable (step host) (initial host) state

/-- The next action of the rank is `cudaFree` of its region. -/
def Process.CallsFree (process : Process n) : Prop :=
  process.pc = .free true ∧ process.owner.localRegion.isSome = true

end P2p
end NanoNccl
