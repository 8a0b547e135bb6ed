import NanoNccl.Kernel.Credit
import NanoNccl.Kernel.Passes
import NanoNccl.Kernel.Tracking

/-!
# Memory of one block

How the memory a block writes agrees with its position in the plan of a launch: every slice between
head and tail of its edge lies unharmed in its slot, and every output element has the history its
plan entry prescribes. Each action of the block keeps the agreement. The plans are only asked to
fit the slots, to be sound round by round and to write each output element at most once.
-/

namespace NanoNccl

variable {α : Type*}

/-- Two slice operations write no common output element. -/
def SliceOp.Apart (left right : SliceOp) : Prop := ∀ j, ¬ (left.Covers j ∧ right.Covers j)

namespace KernelRing

/-- What the delivery argument asks of the plans of a launch. -/
structure PlanOk (net : KernelRing α) (launch : Launch α) : Prop where
  /-- Slices fit their slots. -/
  fits : ∀ id : BlockId, ∀ entry ∈ net.plan launch id,
    entry.op.prim.sends = true ∨ entry.op.prim.recvs = true →
      entry.op.work ≤ stepElems kFifoBytes launch.dtype
  /-- An entry produces what its primitive computes. -/
  sound : ∀ id : BlockId, id.1 < net.kRanks → ∀ entry ∈ net.plan launch id, ∀ i,
    entry.sent i =
      net.produce launch id.1 entry.op.prim (entry.op.src + i) (entry.recv i)
  /-- Entries of one block write different elements. -/
  apart : ∀ id : BlockId, id.1 < net.kRanks → id.2 < net.kChannels →
    (net.plan launch id).Pairwise fun left right => left.op.Apart right.op
  /-- Entries of different channels write different elements. -/
  channels : ∀ rank channel other, rank < net.kRanks → channel < net.kChannels →
    other < net.kChannels → channel ≠ other → ∀ left ∈ net.plan launch (rank, channel),
      ∀ right ∈ net.plan launch (rank, other), left.op.Apart right.op

/-- History an entry leaves in the output elements it covers. -/
def finalHistory (launch : Launch α) (entry : Entry α) (i : ℕ) : List α :=
  if twoPass launch entry.op && !entry.op.prim.sends then [entry.recv i, entry.sent i]
  else [entry.sent i]

/-- History of the output elements of the current entry. -/
def history (launch : Launch α) (slice : SliceState) (entry : Entry α) (i : ℕ) : List α :=
  if !slice.moved then []
  else if twoPass launch entry.op && !slice.reduced then
    if entry.op.prim.sends then [] else [entry.recv i]
  else finalHistory launch entry i

/-- Content of the send slot of the current entry once the first pass is done. -/
def slotContent (launch : Launch α) (slice : SliceState) (entry : Entry α) (i : ℕ) : α :=
  if twoPass launch entry.op && !slice.reduced then entry.recv i else entry.sent i

/-- Memory agrees with the position of a block. -/
structure DataOk (net : KernelRing α) (launch : Launch α) (base : BlockId → ℕ)
    (state : RingState α) (id : BlockId) (done pending : List (Entry α)) : Prop where
  window : ∀ k slice, (outgoing (net.plan launch id))[k]? = some slice →
    state.head id ≤ base id + kSliceSteps * k → base id + kSliceSteps * k < state.tail id →
      ∀ i, i * launch.dtype.size < slice.2.1 →
        state.store.fifo id (slotOffset launch (base id + kSliceSteps * k) + i) = slice.2.2 i
  slot : ∀ entry later, pending = entry :: later → (state.block id).slice.moved = true →
    entry.op.prim.sends = true → ∀ i < entry.op.work,
      state.store.fifo id (slotOffset launch (state.block id).sendStep + i) =
        slotContent launch (state.block id).slice entry i
  done : ∀ entry ∈ done, ∀ j, entry.op.Covers j →
    state.store.writes (id.1, 0) j = finalHistory launch entry (j - entry.op.dst)
  current : ∀ entry later, pending = entry :: later → ∀ j, entry.op.Covers j →
    state.store.writes (id.1, 0) j =
      history launch (state.block id).slice entry (j - entry.op.dst)
  later : ∀ entry ∈ pending.tail ++ net.future id (state.started id.1), ∀ j,
    entry.op.Covers j → state.store.writes (id.1, 0) j = []

variable {net : KernelRing α} {launch : Launch α} {state : RingState α} {base : BlockId → ℕ}
  {id : BlockId}

/-! ## Effect of an action on memory -/

/-- What a pass writes. -/
def passValue (net : KernelRing α) (launch : Launch α) (state : RingState α) (id : BlockId)
    (op : SliceOp) (action : Action) : ℕ → α :=
  if action = .move then net.firstValue launch id (state.block id) op state.store
  else net.secondValue launch id (state.block id) op state.store

section Perform

variable {op : SliceOp} {rest : List SliceOp} {action : Action}

theorem twoPass_of_reduce (enabled : guard launch (state.block id) op .reduce = true) :
    twoPass launch op = true ∧ (state.block id).slice.moved = true ∧
      (state.block id).slice.reduced = false := by
  simpa [guard, and_assoc] using enabled

theorem perform_fifo (enabled : guard launch (state.block id) op action = true) :
    (net.perform launch state id (state.block id) op rest action).store.fifo =
      if (action = .move ∨ action = .reduce) ∧ op.prim.sends = true then
        Function.update state.store.fifo id (Memory.overwrite (state.store.fifo id)
          (slotOffset launch (state.block id).sendStep) op.work
          (net.passValue launch state id op action))
      else state.store.fifo := by
  cases action
  case move => simp [perform, moveSlice_fifo, passValue]
  case reduce => simp [perform, reduceSlice_fifo _ _ _ _ (twoPass_of_reduce enabled).1, passValue]
  all_goals simp [perform]

theorem perform_writes (enabled : guard launch (state.block id) op action = true) :
    (net.perform launch state id (state.block id) op rest action).store.writes =
      if (action = .move ∧ firstStores launch op = true) ∨
          (action = .reduce ∧ op.prim.stores = true) then
        Function.update state.store.writes (id.1, (state.block id).launch)
          (logged (state.store.writes (id.1, (state.block id).launch)) op.dst op.work
            (net.passValue launch state id op action))
      else state.store.writes := by
  cases action
  case move => simp [perform, moveSlice_writes, passValue]
  case reduce =>
    simp [perform, reduceSlice_writes _ _ _ _ (twoPass_of_reduce enabled).1, passValue]
  all_goals simp [perform]

/-- A pass only writes output elements its slice operation covers. -/
theorem perform_writes_of_not_covers (enabled : guard launch (state.block id) op action = true)
    {rank j : ℕ} (apart : rank = id.1 → ¬ op.Covers j) :
    (net.perform launch state id (state.block id) op rest action).store.writes (rank, 0) j =
      state.store.writes (rank, 0) j := by
  rw [perform_writes enabled]
  split
  · rename_i storing
    have stores : op.prim.stores = true := by
      rcases storing with ⟨-, first⟩ | ⟨-, stores⟩
      · simp only [firstStores, Bool.and_eq_true] at first
        exact first.1
      · exact stores
    by_cases same : (rank, 0) = (id.1, (state.block id).launch)
    · obtain ⟨rfl, index⟩ := Prod.mk.inj same
      rw [← index, Function.update_self, logged, if_neg]
      exact fun inside => apart rfl ⟨stores, inside⟩
    · rw [Function.update_of_ne same]
  · rfl

theorem perform_fifo_of_ne (enabled : guard launch (state.block id) op action = true)
    {edge : BlockId} (distinct : edge ≠ id) :
    (net.perform launch state id (state.block id) op rest action).store.fifo edge =
      state.store.fifo edge := by
  rw [perform_fifo enabled]
  split
  · rw [Function.update_of_ne distinct]
  · rfl

end Perform

/-! ## Plans of a single launch -/

section Single

variable {done pending later : List (Entry α)} {entry : Entry α}

theorem delayed_zero (entries : List (Entry α)) : delayed 0 entries = entries := by
  simp [delayed]

theorem wholePlan_single (single : net.launches = [launch]) (id : BlockId) :
    net.wholePlan id = net.plan launch id := by
  simp [wholePlan, single, planFrom, delayed_zero]

theorem Tracked.plan_eq (tracked : Tracked net base state id done pending)
    (single : net.launches = [launch]) :
    net.plan launch id = done ++ (pending ++ net.future id (state.started id.1)) := by
  rw [← wholePlan_single single, tracked.whole]

theorem launch_eq_zero (single : net.launches = [launch])
    (found : net.launches[(state.block id).launch]? = some launch) :
    (state.block id).launch = 0 := by
  obtain ⟨inside, -⟩ := List.getElem?_eq_some_iff.mp found
  simp only [single, List.length_singleton] at inside
  omega

theorem history_congr {slice slice' : SliceState} (moved : slice'.moved = slice.moved)
    (reduced : slice'.reduced = slice.reduced) :
    history launch slice' = history launch slice := by
  funext entry i
  simp only [history, moved, reduced]

theorem slotContent_congr {slice slice' : SliceState} (reduced : slice'.reduced = slice.reduced) :
    slotContent launch slice' = slotContent launch slice := by
  funext entry i
  simp only [slotContent, reduced]

/-- A step that leaves the slot, the passes and the covered elements of a block alone keeps its
memory in agreement. -/
theorem DataOk.frame {state' : RingState α} (data : DataOk net launch base state id done pending)
    (tracked : Tracked net base state id done pending) (single : net.launches = [launch])
    (started : state'.started id.1 = state.started id.1)
    (moved : (state'.block id).slice.moved = (state.block id).slice.moved)
    (reduced : (state'.block id).slice.reduced = (state.block id).slice.reduced)
    (sendStep : (state'.block id).sendStep = (state.block id).sendStep)
    (heads : state.head id ≤ state'.head id) (tails : state'.tail id = state.tail id)
    (fifo : state'.store.fifo id = state.store.fifo id)
    (writes : ∀ entry ∈ net.plan launch id, ∀ j, entry.op.Covers j →
      state'.store.writes (id.1, 0) j = state.store.writes (id.1, 0) j) :
    DataOk net launch base state' id done pending := by
  have plan := tracked.plan_eq single
  have inDone {entry : Entry α} (member : entry ∈ done) : entry ∈ net.plan launch id := by
    rw [plan]
    exact List.mem_append_left _ member
  have inRest {entry : Entry α} (member : entry ∈ pending ++ net.future id (state.started id.1)) :
      entry ∈ net.plan launch id := by
    rw [plan]
    exact List.mem_append_right _ member
  constructor
  case window =>
    intro k slice found released posted i inside
    rw [fifo]
    exact data.window k slice found (heads.trans released) (tails ▸ posted) i inside
  case slot =>
    intro entry later position passed sends i inside
    rw [fifo, sendStep, slotContent_congr reduced]
    exact data.slot entry later position (moved ▸ passed) sends i inside
  case done =>
    intro entry member j covers
    rw [writes entry (inDone member) j covers]
    exact data.done entry member j covers
  case current =>
    intro entry later position j covers
    have member : entry ∈ pending := by simp [position]
    rw [writes entry (inRest (List.mem_append_left _ member)) j covers,
      history_congr moved reduced]
    exact data.current entry later position j covers
  case later =>
    intro entry member j covers
    rw [started] at member
    have inside : entry ∈ pending ++ net.future id (state.started id.1) := by
      rcases List.mem_append.mp member with member | member
      · exact List.mem_append_left _ (List.mem_of_mem_tail member)
      · exact List.mem_append_right _ member
    rw [writes entry (inRest inside) j covers]
    exact data.later entry member j covers

/-! ## The two passes -/

/-- A pass leaves the slices between head and tail where they are. -/
theorem window_kept {state' : RingState α} {action : Action} {rest : List SliceOp}
    (ok : PlanOk net launch) (tracked : Tracked net base state id done (entry :: later))
    (single : net.launches = [launch])
    (enabled : guard launch (state.block id) entry.op action = true)
    (free : entry.op.prim.sends = true → SlotFree state id)
    (unposted : state.tail id = (state.block id).sendStep)
    (stepped : state' = net.perform launch state id (state.block id) entry.op rest action)
    {k : ℕ} {slice : ℕ × ℕ × (ℕ → α)}
    (found : (outgoing (net.plan launch id))[k]? = some slice)
    (released : state.head id ≤ base id + kSliceSteps * k)
    (posted : base id + kSliceSteps * k < state.tail id) {i : ℕ}
    (inside : i * launch.dtype.size < slice.2.1) :
    state'.store.fifo id (slotOffset launch (base id + kSliceSteps * k) + i) =
      state.store.fifo id (slotOffset launch (base id + kSliceSteps * k) + i) := by
  have plan := tracked.plan_eq single
  subst stepped
  rw [perform_fifo enabled]
  split
  · rename_i passing
    have room := free passing.2
    have fits := ok.fits id entry (by rw [plan]; simp) (.inl passing.2)
    have short : i < stepElems kFifoBytes launch.dtype := by
      obtain ⟨other, member, sends, rfl⟩ := mem_outgoing (List.mem_of_getElem? found)
      have bytes := bytes_mem_plan member
      have otherFits := ok.fits id other member (.inl sends)
      simp only [bytes] at inside
      exact lt_of_lt_of_le (Nat.lt_of_mul_lt_mul_right inside) otherFits
    rw [Function.update_self]
    unfold slotOffset
    refine Memory.overwrite_other_slot _ ?_ fits _ short
    unfold SlotFree at room
    simp only [kSliceSteps, kFifoSteps] at room released posted ⊢
    refine Memory.mod_ne_of_window (state.head id) ?_ ?_ ?_ ?_ ?_ <;> omega
  · rfl

/-- The receive slot holds the data the current entry expects. -/
theorem received_eq {donePred pendingPred : List (Entry α)} (two : 2 ≤ net.kRanks)
    (single : net.launches = [launch]) (id_rank : id.1 < net.kRanks)
    (blockOk : BlockOk net state id) (live : (state.block id).live = true)
    (tracked : Tracked net base state id done (entry :: later))
    (dataPred : DataOk net launch base state (net.pred id) donePred pendingPred)
    (bytes : entry.bytes = entry.op.work * launch.dtype.size)
    (recvs : entry.op.prim.recvs = true)
    (waited : (state.block id).slice.waitedRecv = true)
    (unreleased : (state.block id).slice.postedHead = false) {i : ℕ}
    (inside : i < entry.op.work) :
    net.received launch id (state.block id) state.store i = entry.recv i := by
  have streams := outgoing_wholePlan (pred_lt id_rank) two
  rw [succ_pred id_rank] at streams
  have expected := tracked.next_incoming recvs
  rw [← streams, wholePlan_single single] at expected
  have step := tracked.recvStep
  have head := blockOk.head
  have cached := blockOk.waitedRecv waited
  have published := blockOk.recvCache live
  rw [unreleased, ahead_false, Nat.add_zero] at head
  unfold received
  rw [step]
  refine dataPred.window (incoming done).length _ expected ?_ ?_ i ?_
  · rw [head, step]
  · have : 0 < kSliceSteps := by decide
    omega
  · rw [bytes]
    exact Nat.mul_lt_mul_of_pos_right inside launch.dtype.size_pos

theorem produce_of_not_recvs {rank j : ℕ} {prim : Prim} (silent : prim.recvs = false)
    (left right : α) :
    net.produce launch rank prim j left = net.produce launch rank prim j right := by
  cases prim <;> simp [Prim.recvs, produce] at silent ⊢

/-- The first pass writes what the entry prescribes. -/
theorem firstValue_eq_slotContent (slice : SliceState) (fresh : slice.reduced = false)
    (sound : ∀ i, entry.sent i =
      net.produce launch id.1 entry.op.prim (entry.op.src + i) (entry.recv i))
    (arrived : entry.op.prim.recvs = true → ∀ i < entry.op.work,
      net.received launch id (state.block id) state.store i = entry.recv i) {i : ℕ}
    (inside : i < entry.op.work) :
    net.firstValue launch id (state.block id) entry.op state.store i =
      slotContent launch slice entry i := by
  unfold firstValue slotContent
  rw [fresh]
  cases recvs : entry.op.prim.recvs with
  | true => simp [arrived recvs i inside, sound]
  | false =>
      have single : twoPass launch entry.op = false := by
        unfold twoPass
        cases prim : entry.op.prim <;> simp [prim, Prim.recvs, Prim.reduces] at recvs ⊢
      rw [single, sound]
      simp only [Bool.false_and, Bool.false_eq_true, if_false]
      exact produce_of_not_recvs recvs _ _

/-- The second pass finds the copy the first one left and finishes it. -/
theorem secondValue_eq_sent (data : DataOk net launch base state id done (entry :: later))
    (consistent : state.store.Consistent output) (index : (state.block id).launch = 0)
    (passes : twoPass launch entry.op = true) (moved : (state.block id).slice.moved = true)
    (fresh : (state.block id).slice.reduced = false)
    (sound : ∀ i, entry.sent i =
      net.produce launch id.1 entry.op.prim (entry.op.src + i) (entry.recv i)) {i : ℕ}
    (inside : i < entry.op.work) :
    net.secondValue launch id (state.block id) entry.op state.store i = entry.sent i := by
  have copy : copied launch id (state.block id) entry.op state.store i = entry.recv i := by
    unfold copied
    cases sends : entry.op.prim.sends with
    | true =>
        have slot := data.slot entry later rfl moved sends i inside
        simpa [slotContent, passes, fresh] using slot
    | false =>
        have stores : entry.op.prim.stores = true := by
          simp only [twoPass, Bool.and_eq_true] at passes
          have reduces := passes.1
          cases prim : entry.op.prim <;> simp [prim, Prim.reduces, Prim.sends, Prim.stores]
            at reduces sends ⊢
        have written := data.current entry later rfl (entry.op.dst + i) ⟨stores, by omega, by omega⟩
        simp only [history, moved, passes, fresh, sends, Nat.add_sub_cancel_left] at written
        simp only [index, Bool.false_eq_true, if_false]
        rw [consistent, written]
        rfl
  unfold secondValue
  rw [copy, sound]

/-- Entries before and after the current one write other elements. -/
theorem Tracked.apart (tracked : Tracked net base state id done (entry :: later))
    (single : net.launches = [launch]) (ok : PlanOk net launch) (id_rank : id.1 < net.kRanks)
    (id_channel : id.2 < net.kChannels) {other : Entry α}
    (member : other ∈ done ∨ other ∈ later ++ net.future id (state.started id.1)) {j : ℕ}
    (covers : other.op.Covers j) : ¬ entry.op.Covers j := by
  have pairwise := ok.apart id id_rank id_channel
  rw [tracked.plan_eq single, List.cons_append] at pairwise
  obtain ⟨-, rest, across⟩ := List.pairwise_append.mp pairwise
  intro both
  rcases member with member | member
  · exact across other member entry List.mem_cons_self j ⟨covers, both⟩
  · exact (List.pairwise_cons.mp rest).1 other member j ⟨both, covers⟩

/-- A pass that writes the prescribed values keeps memory in agreement. -/
theorem DataOk.pass {action : Action} {rest : List SliceOp} (ok : PlanOk net launch)
    (single : net.launches = [launch]) (id_rank : id.1 < net.kRanks)
    (id_channel : id.2 < net.kChannels)
    (tracked : Tracked net base state id done (entry :: later))
    (data : DataOk net launch base state id done (entry :: later))
    (index : (state.block id).launch = 0)
    (enabled : guard launch (state.block id) entry.op action = true)
    (passing : action = .move ∨ action = .reduce)
    (free : entry.op.prim.sends = true → SlotFree state id)
    (unposted : state.tail id = (state.block id).sendStep)
    (content : ∀ i < entry.op.work, net.passValue launch state id entry.op action i =
      slotContent launch (net.act state id (state.block id) entry.op rest action).slice entry i)
    (logs : entry.op.prim.stores = true → ∀ i,
      history launch (net.act state id (state.block id) entry.op rest action).slice entry i =
      if (action = .move ∧ firstStores launch entry.op = true) ∨
          (action = .reduce ∧ entry.op.prim.stores = true) then
        history launch (state.block id).slice entry i ++
          [slotContent launch (net.act state id (state.block id) entry.op rest action).slice
            entry i]
      else history launch (state.block id).slice entry i) :
    DataOk net launch base
      (net.perform launch state id (state.block id) entry.op rest action) id done
      (entry :: later) := by
  have block : (net.perform launch state id (state.block id) entry.op rest action).block id =
      net.act state id (state.block id) entry.op rest action := by
    rw [perform_block, Function.update_self]
  have kept : (net.act state id (state.block id) entry.op rest action).sendStep =
      (state.block id).sendStep := by
    rcases passing with rfl | rfl <;> rfl
  have head : (net.perform launch state id (state.block id) entry.op rest action).head =
      state.head := by
    rcases passing with rfl | rfl <;> rfl
  have tail : (net.perform launch state id (state.block id) entry.op rest action).tail =
      state.tail := by
    rcases passing with rfl | rfl <;> rfl
  constructor
  case window =>
    intro k slice found released posted i inside
    rw [head] at released
    rw [tail] at posted
    rw [window_kept ok tracked single enabled free unposted rfl found released posted inside]
    exact data.window k slice found released posted i inside
  case slot =>
    intro other rest' position _ sends i inside
    obtain ⟨rfl, rfl⟩ : entry = other ∧ later = rest' := by simpa using position
    rw [block, kept, perform_fifo enabled, if_pos ⟨passing, sends⟩, Function.update_self,
      Memory.overwrite_inside _ _ _ _ inside, content i inside]
  case done =>
    intro other member j covers
    rw [perform_writes_of_not_covers enabled fun _ =>
      tracked.apart single ok id_rank id_channel (.inl member) covers]
    exact data.done other member j covers
  case current =>
    intro other rest' position j covers
    obtain ⟨rfl, rfl⟩ : entry = other ∧ later = rest' := by simpa using position
    have before := data.current entry later rfl j covers
    have inside : j - entry.op.dst < entry.op.work := by
      have := covers.2
      omega
    rw [block, logs covers.1, perform_writes enabled, index]
    split
    · rw [Function.update_self, logged, if_pos covers.2, before, content _ inside]
    · exact before
  case later =>
    intro other member j covers
    rw [perform_started] at member
    rw [perform_writes_of_not_covers enabled fun _ =>
      tracked.apart single ok id_rank id_channel (.inr member) covers]
    exact data.later other member j covers

/-- Publishing the tail puts the current slice into the window. -/
theorem DataOk.postTail {rest : List SliceOp}
    (single : net.launches = [launch])
    (tracked : Tracked net base state id done (entry :: later))
    (data : DataOk net launch base state id done (entry :: later))
    (unposted : state.tail id = (state.block id).sendStep)
    (bytes : entry.bytes = entry.op.work * launch.dtype.size)
    (enabled : guard launch (state.block id) entry.op .postTail = true) :
    DataOk net launch base
      (net.perform launch state id (state.block id) entry.op rest .postTail) id done
      (entry :: later) := by
  simp only [guard, Bool.and_eq_true, Bool.or_eq_true, Bool.not_eq_true'] at enabled
  obtain ⟨⟨⟨⟨sends, moved⟩, -⟩, reduced⟩, -⟩ := enabled
  have step := tracked.sendStep
  have next := tracked.next_outgoing sends
  rw [wholePlan_single single] at next
  constructor
  case window =>
    intro k slice found released posted i inside
    simp only [perform, Function.update_self] at posted released ⊢
    by_cases last : k = (outgoing done).length
    · subst last
      obtain rfl : slice = (entry.time + 2, entry.bytes, entry.sent) :=
        Option.some.inj (found.symm.trans next)
      have short : i < entry.op.work := by
        rw [bytes] at inside
        exact Nat.lt_of_mul_lt_mul_right inside
      have slot := data.slot entry later rfl moved sends i short
      rw [step] at slot
      rw [slot]
      rcases reduced with single | reduced
      · simp [slotContent, single]
      · simp [slotContent, reduced]
    · refine data.window k slice found released ?_ i inside
      simp only [kSliceSteps] at posted step ⊢
      omega
  case slot =>
    intro other rest' position _ sends i inside
    simp only [perform, act, Function.update_self]
    exact data.slot other rest' position moved sends i inside
  case done => exact data.done
  case current =>
    intro other rest' position j covers
    simp only [perform, act, Function.update_self]
    exact data.current other rest' position j covers
  case later => exact data.later

/-- Finishing a slice operation completes its histories. -/
theorem DataOk.next {rest : List SliceOp}
    (data : DataOk net launch base state id done (entry :: later))
    (enabled : guard launch (state.block id) entry.op .next = true) :
    DataOk net launch base
      (net.perform launch state id (state.block id) entry.op rest .next) id (done ++ [entry])
      later := by
  simp only [guard, Bool.and_eq_true, Bool.or_eq_true, Bool.not_eq_true'] at enabled
  obtain ⟨⟨⟨moved, reduced⟩, -⟩, -⟩ := enabled
  constructor
  case window => exact data.window
  case slot =>
    intro other rest' _ passed
    simp [perform, act] at passed
  case done =>
    intro other member j covers
    rcases List.mem_append.mp member with member | member
    · exact data.done other member j covers
    · obtain rfl := List.mem_singleton.mp member
      have written := data.current other later rfl j covers
      refine written.trans ?_
      rcases reduced with single | reduced
      · simp [history, moved, single]
      · simp [history, moved, reduced]
  case current =>
    intro other rest' position j covers
    have fresh := data.later other (by simp [position]) j covers
    simpa [perform, act, history] using fresh
  case later =>
    intro other member j covers
    refine data.later other ?_ j covers
    rcases List.mem_append.mp member with member | member
    · exact List.mem_append_left _ (List.mem_of_mem_tail member)
    · exact List.mem_append_right _ member

/-- Starting the launch leaves memory alone. -/
theorem DataOk.enter {state' : RingState α} {pending' : List (Entry α)}
    (data : DataOk net launch base state id done [])
    (ahead : net.future id (state.started id.1) =
      pending' ++ net.future id (state'.started id.1))
    (fresh : (state'.block id).slice = {}) (heads : state'.head = state.head)
    (tails : state'.tail = state.tail) (memory : state'.store = state.store) :
    DataOk net launch base state' id done pending' := by
  have unwritten : ∀ entry ∈ pending' ++ net.future id (state'.started id.1), ∀ j,
      entry.op.Covers j → state'.store.writes (id.1, 0) j = [] := by
    intro entry member j covers
    rw [memory]
    refine data.later entry ?_ j covers
    rw [ahead]
    simpa using member
  constructor
  case window =>
    rw [heads, tails, memory]
    exact data.window
  case slot =>
    intro entry later _ moved
    simp [fresh] at moved
  case done =>
    rw [memory]
    exact data.done
  case current =>
    intro entry later position j covers
    rw [unwritten entry (by simp [position]) j covers, fresh]
    simp [history]
  case later =>
    intro entry member j covers
    refine unwritten entry ?_ j covers
    rcases List.mem_append.mp member with member | member
    · exact List.mem_append_left _ (List.mem_of_mem_tail member)
    · exact List.mem_append_right _ member

end Single

end KernelRing
end NanoNccl
