import NanoNccl.Kernel.Collectives
import NanoNccl.Kernel.PipeDelivery
import NanoNccl.Kernel.SeededRing
import NanoNccl.Transport.Services

/-!
# The collectives over any mixture of services

Ranks launch any list of collectives back to back, and each edge is served by whatever connects
its two ranks. A rank that has returned from a launch holds its result, in every interleaving of
the kernels, the proxies and the networks, and while the other ranks are anywhere, as long as the
launches start where the published heads cover the caches they seed.
-/

namespace NanoNccl

variable {α : Type*}

namespace KernelRing

/-- Element `j` of the output of a rank. For AllReduce it is reduced along the ring from the
successor of `c` on. -/
def result (net : KernelRing α) (launch : Launch α) (c rank j : ℕ) : α :=
  match launch.kind with
  | .allReduce =>
      net.finish launch.redop (ringReduce (net.apply launch.redop) net.kRanks
        (fun source => launch.input source j) c)
  | .allGather => launch.input (j / launch.count) (j % launch.count)
  | .reduceScatter =>
      net.finish launch.redop (ringReduce (net.apply launch.redop) net.kRanks
        (fun source => launch.input source (rank * launch.count + j)) rank)

/-- Some channel writes an element of the output on every rank. -/
theorem exists_entry_result {net : KernelRing α} (launch : Launch α) (two : 2 ≤ net.kRanks)
    (channels : 0 < net.kChannels) {j : ℕ} (inside : j < net.outputCount launch) :
    ∃ c < net.kRanks, ∃ channel < net.kChannels, ∀ rank < net.kRanks,
      ∃ entry ∈ net.plan launch (rank, channel), entry.op.Covers j ∧
        entry.sent (j - entry.op.dst) = net.result launch c rank j := by
  unfold outputCount at inside
  unfold result
  cases kind : launch.kind with
  | allReduce =>
      simp only [kind] at inside ⊢
      obtain ⟨c, c_lt, channel, channel_lt, entries⟩ :=
        exists_entry_allReduce kind two channels inside
      refine ⟨c, c_lt, channel, channel_lt, fun rank rank_lt => ?_⟩
      obtain ⟨entry, planned, covers, -, sent⟩ := entries rank rank_lt
      exact ⟨entry, planned, covers, sent.trans (net.reduceValue_last launch two c_lt j)⟩
  | allGather =>
      simp only [kind] at inside ⊢
      have positive : 0 < launch.count := Nat.pos_of_mul_pos_left (Nat.zero_lt_of_lt inside)
      have source_lt : j / launch.count < net.kRanks :=
        (Nat.div_lt_iff_lt_mul positive).mpr inside
      obtain ⟨channel, channel_lt, entries⟩ :=
        exists_entry_allGather kind two channels (Nat.mod_lt j positive)
      refine ⟨0, by omega, channel, channel_lt, fun rank rank_lt => ?_⟩
      obtain ⟨entry, planned, covers, -, sent⟩ := entries rank rank_lt _ source_lt
      rw [Nat.mul_comm, Nat.div_add_mod] at covers sent
      exact ⟨entry, planned, covers, sent⟩
  | reduceScatter =>
      simp only [kind] at inside ⊢
      obtain ⟨channel, channel_lt, entries⟩ := exists_entry_reduceScatter kind two channels inside
      refine ⟨0, by omega, channel, channel_lt, fun rank rank_lt => ?_⟩
      obtain ⟨entry, planned, covers, sent⟩ := entries rank rank_lt
      exact ⟨entry, planned, covers, sent.trans (net.reduceValue_last launch two rank_lt _)⟩

end KernelRing

namespace PipeRing

variable {ring : PipeRing α} {state : ring.State}

/-- The rank has returned from a launch. -/
def State.Returned (state : ring.State) (rank index : ℕ) : Prop :=
  index + 1 < state.started rank ∨ index + 1 = state.started rank ∧ state.idle rank

instance (state : ring.State) (rank index : ℕ) : Decidable (state.Returned rank index) :=
  inferInstanceAs (Decidable (_ ∨ _))

/-- A rank that has returned from a launch is done with all its tasks. -/
theorem Placed.mem_done {id : BlockId} {done pending : List (Task α)} {task : Task α}
    (placed : Placed state id done pending) (id_channel : id.2 < ring.net.kChannels)
    (returned : state.Returned id.1 task.index) (member : task ∈ ring.net.tasks id) :
    task ∈ done := by
  rw [placed.whole] at member
  rcases List.mem_append.mp member with finished | ahead
  · exact finished
  · rcases List.mem_append.mp ahead with current | later
    · obtain ⟨-, last⟩ := placed.current task current
      rcases returned with before | ⟨-, idle⟩
      · omega
      · obtain rfl := placed.pending_nil (placed.returned (idle id.2 id_channel))
        cases current
    · have := KernelRing.index_of_mem_laterTasks later
      rcases returned with before | ⟨last, -⟩ <;> omega

/-- A rank that has returned from a launch has written what its entries send, once. -/
theorem Delivering.writes_eq {index rank channel : ℕ} {launch : Launch α} {entry : Entry α}
    (inv : Delivering state) (rank_lt : rank < ring.net.kRanks)
    (channel_lt : channel < ring.net.kChannels)
    (found : ring.net.launches[index]? = some launch) (returned : state.Returned rank index)
    (planned : entry ∈ ring.net.plan launch (rank, channel)) {j : ℕ}
    (covers : entry.op.Covers j) :
    state.writes (rank, index) j = [entry.sent (j - entry.op.dst)] := by
  obtain ⟨done, pending, placed, written⟩ := inv.blocks (rank, channel) rank_lt channel_lt
  have member := KernelRing.mem_tasks_of_mem_plan found planned
  exact written.done _ (placed.mem_done channel_lt returned member) j covers

/-- Outside the output buffer of a launch nothing is ever written. -/
theorem Delivering.outside {index rank j : ℕ} {launch : Launch α} (inv : Delivering state)
    (two : 2 ≤ ring.net.kRanks) (rank_lt : rank < ring.net.kRanks)
    (found : ring.net.launches[index]? = some launch)
    (outside : ring.net.outputCount launch ≤ j) : state.writes (rank, index) j = [] := by
  refine inv.untouched rank index j fun channel channel_lt task member same covers => ?_
  obtain ⟨launched, planned⟩ := KernelRing.mem_tasks member
  rw [same, found] at launched
  obtain rfl := Option.some.inj launched
  have inside := KernelRing.covers_lt two rank_lt channel_lt planned covers
  omega

/-- What the collectives compute, whatever the pipes. -/
theorem Delivering.results {index : ℕ} {launch : Launch α} (inv : Delivering state)
    (two : 2 ≤ ring.net.kRanks) (channels : 0 < ring.net.kChannels)
    (found : ring.net.launches[index]? = some launch) :
    (∀ j < ring.net.outputCount launch, ∃ c < ring.net.kRanks, ∀ rank < ring.net.kRanks,
      state.Returned rank index →
        state.writes (rank, index) j = [ring.net.result launch c rank j]) ∧
      ∀ rank < ring.net.kRanks, ∀ j, ring.net.outputCount launch ≤ j →
        state.writes (rank, index) j = [] := by
  constructor
  · intro j inside
    obtain ⟨c, c_lt, channel, channel_lt, entries⟩ :=
      KernelRing.exists_entry_result launch two channels inside
    refine ⟨c, c_lt, fun rank rank_lt returned => ?_⟩
    obtain ⟨entry, planned, covers, sent⟩ := entries rank rank_lt
    rw [inv.writes_eq rank_lt channel_lt found returned planned covers, sent]
  · exact fun rank rank_lt j outside => inv.outside two rank_lt found outside

end PipeRing

/-- The ring whose edges are served by `services`. -/
def serviceRing (net : KernelRing α) (codec : Codec α) (services : BlockId → Service) :
    SeededRing α where
  net := net
  codec := codec
  edge := fun id => (services id).pipe
  slots := fun id => (services id).slots

/-- Over every mixture of direct, socket and RDMA edges, in every state of every run of every list
of launches whose seeded caches are covered, a rank that has returned from a launch holds the
result of its collective, every element left by one pass, and nothing outside the output is ever
written. -/
theorem collectives_over_services (net : KernelRing α) (codec : Codec α)
    (services : BlockId → Service) (two : 2 ≤ net.kRanks) (channels : 0 < net.kChannels)
    (typed : (serviceRing net codec services).toPipeRing.Typed)
    (fits : (serviceRing net codec services).Fits)
    (labels : List (serviceRing net codec services).Label)
    (seeded : StepSystem.Along (serviceRing net codec services).step
      (serviceRing net codec services).SeedCovered (serviceRing net codec services).initial labels)
    (state : (serviceRing net codec services).State)
    (execution : StepSystem.exec (serviceRing net codec services).step
      (serviceRing net codec services).initial labels = some state)
    (index : ℕ) (launch : Launch α) (found : net.launches[index]? = some launch) :
    (∀ j < net.outputCount launch, ∃ c < net.kRanks, ∀ rank < net.kRanks,
      state.pipes.Returned rank index →
        state.pipes.writes (rank, index) j = [net.result launch c rank j]) ∧
      ∀ rank < net.kRanks, ∀ j, net.outputCount launch ≤ j →
        state.pipes.writes (rank, index) j = [] :=
  (PipeRing.delivering_reachable typed two
    (SeededRing.pipes_reachable fits seeded execution)).results two channels found

/-- Elements that are their own bytes. -/
def bytesCodec : Codec (List UInt8) where
  encode := fun _ value => value
  decode := fun _ bytes => bytes
  Typed := fun dtype value => value.length = dtype.size
  length_encode := id
  decode_encode := fun _ => rfl

/-- A ReduceScatter, two AllGathers and an AllReduce on two ranks, with several element types. -/
def mixedNet : KernelRing (List UInt8) where
  kRanks := 2
  kChannels := 1
  launches :=
    [{ kind := .reduceScatter, dtype := .float16, redop := .sum, count := 1,
       input := fun rank j => [UInt8.ofNat (10 * rank + j), 1] },
     { kind := .allGather, dtype := .float, redop := .sum, count := 1,
       input := fun rank _ => [UInt8.ofNat rank, 2, 3, 4] },
     { kind := .allReduce, dtype := .float, redop := .sum, count := 5,
       input := fun rank j => [UInt8.ofNat (10 * rank + j), 5, 6, 7] },
     { kind := .allGather, dtype := .float16, redop := .sum, count := 1,
       input := fun rank _ => [UInt8.ofNat rank, 8] }]
  apply := fun _ => List.zipWith (· + ·)
  scaleAvg := id

/-- The socket edge the communicator sets up: its FIFOs are those of an RDMA edge. -/
def communicatorLink : Socket.Link where
  slotBytes := Rdma.communicatorEdge.slotBytes
  slotCount := Rdma.communicatorEdge.slotCount
  stepIncrement := Rdma.communicatorEdge.stepIncrement
  sendData := Rdma.communicatorEdge.sendData
  recvData := Rdma.communicatorEdge.recvData
  base := Rdma.communicatorEdge.base
  slotBytes_pos := Rdma.communicatorEdge.slotBytes_pos
  stepIncrement_pos := Rdma.communicatorEdge.stepIncrement_pos
  stepIncrement_le := by decide
  fits := Rdma.communicatorEdge.fits
  sendData_ne := Rdma.communicatorEdge.sendData_ne
  recvData_ne := Rdma.communicatorEdge.recvData_ne

/-- Rank 0 sends over TCP and rank 1 over RDMA. -/
def mixedServices : BlockId → Service
  | (0, _) => .socket communicatorLink
  | _ => .sendRecv Rdma.communicatorEdge

/-- The ring of `mixedNet` over `mixedServices`. -/
def mixedRing : SeededRing (List UInt8) := serviceRing mixedNet bytesCodec mixedServices

theorem mixedRing_typed : mixedRing.toPipeRing.Typed := by
  constructor
  · intro launch member rank j
    fin_cases member <;> rfl
  · intro launch _ left right leftTyped rightTyped
    simp only [mixedRing, serviceRing, mixedNet, bytesCodec] at leftTyped rightTyped ⊢
    rw [List.length_zipWith, leftTyped, rightTyped, Nat.min_self]
  · exact fun _ _ _ of_type => of_type

theorem mixedRing_fits : mixedRing.Fits
  | (0, _) => ⟨rfl, rfl⟩
  | (_ + 1, _) => ⟨rfl, rfl⟩

/-- All four launches on both ranks, with the proxies of both edges. Rank 1 starts its last launch
only when the SEND of step 0 has completed: the slots of its FIFO are all used by then. -/
def mixedRun : List mixedRing.Label :=
  let act := fun rank => List.map (SeededRing.Label.block (rank, 0))
  let own : List PipeAction := [.move, .publish, .next]
  let copied : List PipeAction := [.move, .next, .move, .publish, .next]
  let forward : List PipeAction := [.take, .move, .publish, .release, .next]
  let last : List PipeAction := [.take, .move, .release, .next, .ret]
  let tcp (len : ℕ) : List mixedRing.Label :=
    let moves : List Socket.Own :=
      [.recv, .send, .send, .sendmsg (4 + len), .send, .send, .recvBytes 4, .recv, .recvBytes len,
        .recv, .recv, .recv]
    moves.map fun move => .own (0, 0) move
  let rdma (moves : List Rdma.SendRecv.Own) : List mixedRing.Label :=
    moves.map fun move => .own (1, 0) move
  let sent : List Rdma.SendRecv.Own :=
    List.replicate 4 .send ++ [.executeSend, .pollRecv 1, .recv, .recv]
  let slice := List.replicate 4 .recv ++ sent
  List.flatten
    [[.launch 0], act 0 own, [.launch 1], act 1 own, tcp 2, act 1 last, [.launch 1], act 1 copied,
      rdma (List.replicate 6 .recv ++ slice), act 0 last, [.launch 0], act 0 copied, tcp 4,
      act 1 last, [.launch 1], act 1 own, rdma slice, act 0 last, [.launch 0], act 0 own, tcp 4,
      act 1 forward, rdma slice, act 0 forward, tcp 16, act 1 last, rdma slice, act 0 last,
      [.launch 0], act 0 copied, tcp 2,
      rdma (List.replicate 4 .recv ++ [.send, .pollSend 1, .send]),
      [.launch 1], act 1 (copied ++ last), rdma (.send :: sent), act 0 last]

theorem collectives_over_services_mixed :
    ∃ state, StepSystem.exec mixedRing.step mixedRing.initial mixedRun = some state ∧
      state.pipes.writes (1, 0) 0 = [[12, 2]] ∧ state.pipes.writes (0, 2) 4 = [[18, 10, 12, 14]] ∧
      state.pipes.writes (0, 3) 1 = [[1, 8]] := by
  have reached : (StepSystem.exec mixedRing.step mixedRing.initial mixedRun).any
      (fun state => decide (state.pipes.Returned 1 0 ∧ state.pipes.Returned 0 3)) = true := by
    decide +kernel
  obtain ⟨state, execution, finished⟩ := (Option.any_eq_true _ _).mp reached
  obtain ⟨first, fourth⟩ := of_decide_eq_true finished
  have covered : StepSystem.Along mixedRing.step mixedRing.SeedCovered mixedRing.initial
      mixedRun := by
    have checked : StepSystem.checkAlong mixedRing.step
        (fun state label => decide (mixedRing.SeedCovered state label)) mixedRing.initial
        mixedRun = true := by
      decide +kernel
    exact StepSystem.along_of_checkAlong (fun _ _ => of_decide_eq_true) checked
  have correct (index : ℕ) (launch : Launch (List UInt8)) :=
    collectives_over_services mixedNet bytesCodec mixedServices (by decide) (by decide)
      mixedRing_typed mixedRing_fits mixedRun covered state execution index launch
  obtain ⟨_, -, scattered⟩ := (correct 0 _ rfl).1 0 (by decide)
  obtain ⟨c, c_lt, reduced⟩ := (correct 2 _ rfl).1 4 (by decide)
  obtain ⟨_, -, gathered⟩ := (correct 3 _ rfl).1 1 (by decide)
  have third : state.pipes.Returned 0 2 := by
    obtain later | ⟨last, -⟩ := fourth
    · exact .inl (by omega)
    · exact .inl last.le
  refine ⟨state, execution, ?_, ?_, ?_⟩
  · rw [scattered 1 (by decide) first]
    rfl
  · rw [reduced 0 (by decide) third]
    have c_lt : c < 2 := c_lt
    interval_cases c <;> rfl
  · rw [gathered 0 (by decide) fourth]
    rfl

end NanoNccl
