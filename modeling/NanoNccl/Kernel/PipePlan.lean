import NanoNccl.Kernel.PipeRing

/-!
# What travels through the pipes

The plans of all launches laid one after the other, entry by entry with the launch it belongs to,
and the byte strings they send and expect. What a block sends over all its launches is what its
successor expects, whatever mixture of collectives and element types is launched.
-/

namespace NanoNccl

/-- A planned slice operation of one of the launches. -/
structure Task (α : Type*) where
  /-- Index of the launch. -/
  index : ℕ
  /-- The launch. -/
  launch : Launch α
  /-- The planned slice operation. -/
  entry : Entry α

namespace KernelRing

variable {α : Type*} (net : KernelRing α)

/-- Tasks of a launch on one block. -/
def tasksOf (id : BlockId) (index : ℕ) (launch : Launch α) : List (Task α) :=
  (net.plan launch id).map fun entry => ⟨index, launch, entry⟩

/-- Tasks of launches numbered from `index` on. -/
def tasksFrom (id : BlockId) : ℕ → List (Launch α) → List (Task α)
  | _, [] => []
  | index, launch :: launches =>
      net.tasksOf id index launch ++ tasksFrom id (index + 1) launches

/-- Tasks of all launches. -/
def tasks (id : BlockId) : List (Task α) := net.tasksFrom id 0 net.launches

/-- Tasks of the launches from `index` on. -/
def laterTasks (id : BlockId) (index : ℕ) : List (Task α) :=
  net.tasksFrom id index (net.launches.drop index)

variable {net}

theorem laterTasks_zero (id : BlockId) : net.laterTasks id 0 = net.tasks id := by
  simp [laterTasks, tasks]

theorem laterTasks_eq {index : ℕ} {launch : Launch α}
    (found : net.launches[index]? = some launch) (id : BlockId) :
    net.laterTasks id index = net.tasksOf id index launch ++ net.laterTasks id (index + 1) := by
  obtain ⟨inside, rfl⟩ := List.getElem?_eq_some_iff.mp found
  unfold laterTasks
  rw [List.drop_eq_getElem_cons inside, tasksFrom]

theorem mem_tasksFrom {id : BlockId} {start : ℕ} {launches : List (Launch α)} {task : Task α}
    (member : task ∈ net.tasksFrom id start launches) :
    start ≤ task.index ∧ launches[task.index - start]? = some task.launch ∧
      task.entry ∈ net.plan task.launch id := by
  induction launches generalizing start with
  | nil => simp [tasksFrom] at member
  | cons launch launches ih =>
      rw [tasksFrom, List.mem_append] at member
      rcases member with member | member
      · obtain ⟨entry, planned, rfl⟩ := List.mem_map.mp member
        exact ⟨le_rfl, by simp, planned⟩
      · obtain ⟨low, found, planned⟩ := ih member
        refine ⟨by omega, ?_, planned⟩
        rw [show task.index - start = task.index - (start + 1) + 1 by omega]
        simpa using found

theorem mem_tasks {id : BlockId} {task : Task α} (member : task ∈ net.tasks id) :
    net.launches[task.index]? = some task.launch ∧ task.entry ∈ net.plan task.launch id := by
  obtain ⟨-, found, planned⟩ := mem_tasksFrom member
  exact ⟨found, planned⟩

theorem index_of_mem_laterTasks {id : BlockId} {index : ℕ} {task : Task α}
    (member : task ∈ net.laterTasks id index) : index ≤ task.index :=
  (mem_tasksFrom member).1

theorem mem_tasksFrom_of_mem_plan {id : BlockId} (start : ℕ) {k : ℕ}
    {launches : List (Launch α)} {launch : Launch α} {entry : Entry α}
    (found : launches[k]? = some launch)
    (planned : entry ∈ net.plan launch id) :
    ⟨start + k, launch, entry⟩ ∈ net.tasksFrom id start launches := by
  induction launches generalizing start k with
  | nil => simp at found
  | cons first launches ih =>
      rw [tasksFrom, List.mem_append]
      cases k with
      | zero =>
          obtain rfl : first = launch := by simpa using found
          exact .inl (List.mem_map.mpr ⟨entry, planned, rfl⟩)
      | succ k =>
          rw [show start + (k + 1) = start + 1 + k by omega]
          exact .inr (ih (start + 1) (by simpa using found))

/-- Every planned entry of every launch is a task. -/
theorem mem_tasks_of_mem_plan {id : BlockId} {index : ℕ} {launch : Launch α} {entry : Entry α}
    (found : net.launches[index]? = some launch) (planned : entry ∈ net.plan launch id) :
    ⟨index, launch, entry⟩ ∈ net.tasks id := by
  have member := mem_tasksFrom_of_mem_plan 0 found planned
  rwa [Nat.zero_add] at member

end KernelRing

/-! ## Byte strings on the edges -/

section Bytes

variable {α : Type*} (codec : Codec α)

/-- Bytes a task sends. -/
def Task.payload (task : Task α) : List UInt8 :=
  codec.pack task.launch.dtype task.entry.op.work task.entry.sent

/-- Bytes a task expects. -/
def Task.expected (task : Task α) : List UInt8 :=
  codec.pack task.launch.dtype task.entry.op.work task.entry.recv

/-- The byte strings some tasks send. -/
def sentBytes (tasks : List (Task α)) : List (List UInt8) :=
  (tasks.filter fun task => task.entry.op.prim.sends).map (Task.payload codec)

/-- The byte strings some tasks expect. -/
def expectedBytes (tasks : List (Task α)) : List (List UInt8) :=
  (tasks.filter fun task => task.entry.op.prim.recvs).map (Task.expected codec)

@[simp] theorem sentBytes_nil : sentBytes codec ([] : List (Task α)) = [] := rfl

@[simp] theorem expectedBytes_nil : expectedBytes codec ([] : List (Task α)) = [] := rfl

@[simp] theorem sentBytes_append (left right : List (Task α)) :
    sentBytes codec (left ++ right) = sentBytes codec left ++ sentBytes codec right := by
  simp [sentBytes]

@[simp] theorem expectedBytes_append (left right : List (Task α)) :
    expectedBytes codec (left ++ right) =
      expectedBytes codec left ++ expectedBytes codec right := by
  simp [expectedBytes]

theorem sentBytes_cons (task : Task α) (tasks : List (Task α)) :
    sentBytes codec (task :: tasks) =
      (if task.entry.op.prim.sends then [task.payload codec] else []) ++
        sentBytes codec tasks := by
  unfold sentBytes
  cases sends : task.entry.op.prim.sends <;> simp [sends]

theorem expectedBytes_cons (task : Task α) (tasks : List (Task α)) :
    expectedBytes codec (task :: tasks) =
      (if task.entry.op.prim.recvs then [task.expected codec] else []) ++
        expectedBytes codec tasks := by
  unfold expectedBytes
  cases recvs : task.entry.op.prim.recvs <;> simp [recvs]

theorem pack_of_bytes {dtype : DType} {bytes work : ℕ} (value : ℕ → α)
    (sized : bytes = work * dtype.size) :
    codec.pack dtype (bytes / dtype.size) value = codec.pack dtype work value := by
  rw [sized, Nat.mul_div_cancel _ dtype.size_pos]

/-- The bytes of a stream of outgoing slices. -/
theorem sentBytes_map {index : ℕ} {launch : Launch α} {entries : List (Entry α)}
    (sized : ∀ entry ∈ entries, entry.bytes = entry.op.work * launch.dtype.size) :
    sentBytes codec (entries.map fun entry => ⟨index, launch, entry⟩) =
      (outgoing entries).map fun slice =>
        codec.pack launch.dtype (slice.2.1 / launch.dtype.size) slice.2.2 := by
  induction entries with
  | nil => rfl
  | cons entry entries ih =>
      have later := ih fun other member => sized other (List.mem_cons_of_mem entry member)
      have first := pack_of_bytes codec entry.sent (sized entry List.mem_cons_self)
      rw [List.map_cons, sentBytes_cons, outgoing_cons, List.map_append, later]
      cases sends : entry.op.prim.sends <;> simp [Task.payload, first]

/-- The bytes of a stream of incoming slices. -/
theorem expectedBytes_map {index : ℕ} {launch : Launch α} {entries : List (Entry α)}
    (sized : ∀ entry ∈ entries, entry.bytes = entry.op.work * launch.dtype.size) :
    expectedBytes codec (entries.map fun entry => ⟨index, launch, entry⟩) =
      (incoming entries).map fun slice =>
        codec.pack launch.dtype (slice.2.1 / launch.dtype.size) slice.2.2 := by
  induction entries with
  | nil => rfl
  | cons entry entries ih =>
      have later := ih fun other member => sized other (List.mem_cons_of_mem entry member)
      have first := pack_of_bytes codec entry.recv (sized entry List.mem_cons_self)
      rw [List.map_cons, expectedBytes_cons, incoming_cons, List.map_append, later]
      cases recvs : entry.op.prim.recvs <;> simp [Task.expected, first]

/-- What a block sends in any launches is, byte for byte, what its successor expects. -/
theorem sentBytes_tasksFrom {net : KernelRing α} {id : BlockId} (id_rank : id.1 < net.kRanks)
    (two : 2 ≤ net.kRanks) (start : ℕ) (launches : List (Launch α)) :
    sentBytes codec (net.tasksFrom id start launches) =
      expectedBytes codec (net.tasksFrom (net.succ id) start launches) := by
  induction launches generalizing start with
  | nil => rfl
  | cons launch launches ih =>
      simp only [KernelRing.tasksFrom, sentBytes_append, expectedBytes_append, ih]
      congr 1
      unfold KernelRing.tasksOf
      rw [sentBytes_map codec fun _ => KernelRing.bytes_mem_plan,
        expectedBytes_map codec fun _ => KernelRing.bytes_mem_plan,
        net.outgoing_plan launch id_rank two]

theorem sentBytes_tasks {net : KernelRing α} {id : BlockId} (id_rank : id.1 < net.kRanks)
    (two : 2 ≤ net.kRanks) :
    sentBytes codec (net.tasks id) = expectedBytes codec (net.tasks (net.succ id)) :=
  sentBytes_tasksFrom codec id_rank two _ _

end Bytes

/-! ## Elements of the right type -/

namespace PipeRing

variable {α : Type*}

/-- Inputs have the element type of their launch, and the arithmetic keeps it. -/
structure Typed (ring : PipeRing α) : Prop where
  input : ∀ launch ∈ ring.net.launches, ∀ rank j,
    ring.codec.Typed launch.dtype (launch.input rank j)
  apply : ∀ launch ∈ ring.net.launches, ∀ left right, ring.codec.Typed launch.dtype left →
    ring.codec.Typed launch.dtype right →
      ring.codec.Typed launch.dtype (ring.net.apply launch.redop left right)
  scaleAvg : ∀ launch ∈ ring.net.launches, ∀ value, ring.codec.Typed launch.dtype value →
    ring.codec.Typed launch.dtype (ring.net.scaleAvg value)

variable {ring : PipeRing α} {launch : Launch α}

theorem Typed.finish (typed : ring.Typed) (member : launch ∈ ring.net.launches) {value : α}
    (of_type : ring.codec.Typed launch.dtype value) :
    ring.codec.Typed launch.dtype (ring.net.finish launch.redop value) := by
  unfold KernelRing.finish
  split
  · exact typed.scaleAvg launch member value of_type
  · exact of_type

theorem Typed.reduceValue (typed : ring.Typed) (member : launch ∈ ring.net.launches)
    (p rank j : ℕ) : ring.codec.Typed launch.dtype (ring.net.reduceValue launch p rank j) := by
  induction p generalizing rank with
  | zero => exact typed.input launch member rank j
  | succ p ih =>
      have reduced := typed.apply launch member _ _ (typed.input launch member rank j)
        (ih ((rank + ring.net.kRanks - 1) % ring.net.kRanks))
      simp only [KernelRing.reduceValue]
      split
      · exact reduced
      · split
        · exact typed.finish member reduced
        · exact ih _

/-- Every planned element has the type of its launch. -/
theorem Typed.plan (typed : ring.Typed) (member : launch ∈ ring.net.launches) {id : BlockId}
    {entry : Entry α} (planned : entry ∈ ring.net.plan launch id) (i : ℕ) :
    ring.codec.Typed launch.dtype (entry.recv i) ∧
      ring.codec.Typed launch.dtype (entry.sent i) := by
  obtain ⟨elemOffset, -, p, -, time, found⟩ := mem_planEntries planned
  obtain ⟨offset, -, -, -, -, recv, sent⟩ := Round.mem_entries found
  rw [recv, sent]
  unfold KernelRing.roundAt
  cases launch.kind with
  | allReduce => exact ⟨typed.reduceValue member _ _ _, typed.reduceValue member _ _ _⟩
  | allGather => exact ⟨typed.input launch member _ _, typed.input launch member _ _⟩
  | reduceScatter => exact ⟨typed.reduceValue member _ _ _, typed.reduceValue member _ _ _⟩

end PipeRing

end NanoNccl
