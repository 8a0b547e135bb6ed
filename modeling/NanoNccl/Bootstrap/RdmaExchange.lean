import NanoNccl.Bootstrap.RdmaSetup
import NanoNccl.Lib.ScriptRuns

/-!
# The ranks set their RDMA transports up together

In the order the source keeps, all sends before all receives, the setups of the ranks never wait for
each other in a circle, whatever order each of them has its connections in. A send proxy runs only
when the other end has accepted the connection and prepared its receive proxy, with both queue pairs
and all targets pointing at each other.
-/

namespace NanoNccl
namespace Bootstrap

open Socket Rdma Scripts

variable {n : ℕ} {network : Network n} {world : RdmaWorld n} {rank : Fin n}
  {items : List PendingRdma} {port : Port n}

/-! ### What a script puts and gets -/

/-- The bytes that leave an end. -/
def portMessage (world : RdmaWorld n) (port : Port n) : List UInt8 :=
  wirePeerInfo (world.info port) (world.padding port) ++ [readyByte]

@[simp] theorem putBytes_work {α : Type*} (items : List α) (task : α → RdmaTask) :
    putBytes port (items.map fun item => (.work (task item) : RdmaOp n)) = [] := by
  simp [putBytes, Op.putAt]

@[simp] theorem getCount_work {α : Type*} (items : List α) (task : α → RdmaTask) :
    getCount port (items.map fun item => (.work (task item) : RdmaOp n)) = 0 := by
  simp [getCount, Op.getAt]

@[simp] theorem putBytes_startSends : putBytes port (startSends world rank items) = [] := by
  unfold startSends
  split
  · rw [putBytes, List.filterMap_append]
    exact List.append_eq_nil_iff.mpr ⟨putBytes_work _ _, rfl⟩
  · exact putBytes_work _ _

@[simp] theorem getCount_startSends : getCount port (startSends world rank items) = 0 := by
  unfold startSends
  split
  · rw [getCount, List.filterMap_append, List.length_append]
    exact Nat.add_eq_zero_iff.mpr ⟨getCount_work _ _, rfl⟩
  · exact getCount_work _ _

section Item

variable {item : PendingRdma}

theorem putAt_sendInfo : (sendInfo network world item).filterMap (Op.putAt port) =
    if item.port network = port then
      wirePeerInfo (world.info port) (world.padding port) else [] := by
  unfold sendInfo
  rw [List.filterMap_map]
  split
  next same =>
    subst same
    simp [Op.putAt, Function.comp_def]
  next apart => simp [Op.putAt, Function.comp_def, apart]

theorem getAt_sendInfo : (sendInfo network world item).filterMap (Op.getAt port) = [] := by
  rw [sendInfo, List.filterMap_map]
  simp [Op.getAt, Function.comp_def]

theorem putAt_recvInfo : (recvInfo network item).filterMap (Op.putAt port) = [] := by
  simp [recvInfo, Op.putAt, List.filterMap_replicate]

theorem getAt_recvInfo : (recvInfo network item).filterMap (Op.getAt port) =
    if item.port network = port then List.replicate peerInfoBytes () else [] := by
  unfold recvInfo
  split
  next same => simp [Op.getAt, same]
  next apart => simp [Op.getAt, apart]

theorem putAt_recvReady : (recvReady network item).filterMap (Op.putAt port) = [] := rfl

theorem getAt_recvReady : (recvReady network item).filterMap (Op.getAt port) =
    if item.port network = port then [()] else [] := by
  by_cases same : item.port network = port <;> simp [recvReady, Op.getAt, same]

end Item

theorem flatMap_ready : (items.map fun item => (.put (item.port network) readyByte : RdmaOp n)) =
    items.flatMap fun item => [.put (item.port network) readyByte] := by
  rw [List.map_eq_flatMap]

section Collected

variable (collected : Collected network rank items)
include collected

/-- A rank with a connection of an RDMA edge runs the whole script. -/
theorem rdmaScript_of_mem (member : port ∈ items.map (PendingRdma.port network)) :
    rdmaScript network world rank items = ofPhases 0 (rdmaPhases network world rank items) :=
  if_pos ⟨port.1, ((collected.mem port).mp member).2.1⟩

theorem putsAt_rdmaScript (member : port ∈ items.map (PendingRdma.port network)) :
    putsAt port (rdmaScript network world rank items) =
      (wirePeerInfo (world.info port) (world.padding port)).map (0, ·) ++ [(4, readyByte)] := by
  obtain ⟨item, inside, named⟩ := List.mem_map.mp member
  have infos : putBytes port (items.flatMap (sendInfo network world)) =
      wirePeerInfo (world.info port) (world.padding port) := by
    rw [putBytes, filterMap_flatMap_of_mem collected.nodup (fun other _ apart => by
      rw [putAt_sendInfo, if_neg apart]) inside named, putAt_sendInfo, if_pos named]
  have reads : putBytes port (items.flatMap (recvInfo network)) = [] := by
    rw [putBytes, List.filterMap_flatMap]
    exact List.flatMap_eq_nil_iff.mpr fun _ _ => putAt_recvInfo
  have ready : putBytes port
      (items.map fun item => (.put (item.port network) readyByte : RdmaOp n)) = [readyByte] := by
    rw [flatMap_ready, putBytes, filterMap_flatMap_of_mem collected.nodup (fun other _ apart => by
      simp [Op.putAt, apart]) inside named]
    simp [Op.putAt, named]
  have confirms : putBytes port (items.flatMap (recvReady network)) = [] := by
    rw [putBytes, List.filterMap_flatMap]
    exact List.flatMap_eq_nil_iff.mpr fun _ _ => putAt_recvReady
  rw [rdmaScript_of_mem collected member, rdmaPhases]
  simp only [putsAt_ofPhases, infos, reads, ready, confirms, putBytes_startSends,
    Function.comp_def, putBytes_work, List.map_nil, List.nil_append]
  rfl

theorem getsAt_rdmaScript (member : port ∈ items.map (PendingRdma.port network)) :
    getsAt port (rdmaScript network world rank items) = List.replicate peerInfoBytes 1 ++ [5] := by
  obtain ⟨item, inside, named⟩ := List.mem_map.mp member
  have infos : getCount port (items.flatMap (sendInfo network world)) = 0 := by
    rw [getCount, List.filterMap_flatMap, List.length_eq_zero_iff]
    exact List.flatMap_eq_nil_iff.mpr fun _ _ => getAt_sendInfo
  have reads : getCount port (items.flatMap (recvInfo network)) = peerInfoBytes := by
    rw [getCount, filterMap_flatMap_of_mem collected.nodup (fun other _ apart => by
      rw [getAt_recvInfo, if_neg apart]) inside named, getAt_recvInfo, if_pos named,
      List.length_replicate]
  have ready : getCount port
      (items.map fun item => (.put (item.port network) readyByte : RdmaOp n)) = 0 := by
    simp [getCount, Op.getAt]
  have confirms : getCount port (items.flatMap (recvReady network)) = 1 := by
    rw [getCount, filterMap_flatMap_of_mem collected.nodup (fun other _ apart => by
      rw [getAt_recvReady, if_neg apart]) inside named, getAt_recvReady, if_pos named,
      List.length_singleton]
  rw [rdmaScript_of_mem collected member, rdmaPhases]
  simp only [getsAt_ofPhases, infos, reads, ready, confirms, getCount_startSends,
    Function.comp_def, getCount_work, List.replicate_zero, List.nil_append]
  rfl

end Collected

theorem port?_of_mem_startSends {op : RdmaOp n} (member : op ∈ startSends world rank items) :
    op.port? = none := by
  unfold startSends at member
  split at member
  · rcases List.mem_append.mp member with inside | last
    · obtain ⟨item, -, rfl⟩ := List.mem_map.mp inside
      rfl
    · obtain rfl := List.mem_singleton.mp last
      rfl
  · obtain ⟨item, -, rfl⟩ := List.mem_map.mp member
    rfl

/-- A rank leaves the ends it does not hold alone. -/
theorem port_of_mem_rdmaScript {entry : ℕ × RdmaOp n}
    (member : entry ∈ rdmaScript network world rank items) (uses : entry.2.port? = some port) :
    port ∈ items.map (PendingRdma.port network) := by
  obtain ⟨phase, op⟩ := entry
  unfold rdmaScript at member
  split at member
  · obtain ⟨k, ops, here, -, inside⟩ := mem_ofPhases.mp member
    have named : ∃ item ∈ items, op.port? = some (item.port network) ∨ op.port? = none := by
      have phases := List.mem_of_getElem? here
      simp only [rdmaPhases, List.mem_cons, List.not_mem_nil, or_false] at phases
      rcases phases with rfl | rfl | rfl | rfl | rfl | rfl | rfl
      · obtain ⟨item, kept, sends⟩ := List.mem_flatMap.mp inside
        obtain ⟨byte, -, rfl⟩ := List.mem_map.mp sends
        exact ⟨item, kept, .inl rfl⟩
      · obtain ⟨item, kept, receives⟩ := List.mem_flatMap.mp inside
        obtain rfl := (List.mem_replicate.mp receives).2
        exact ⟨item, kept, .inl rfl⟩
      · obtain ⟨item, kept, rfl⟩ := List.mem_map.mp inside
        exact ⟨item, kept, .inr rfl⟩
      · obtain ⟨item, kept, rfl⟩ := List.mem_map.mp inside
        exact ⟨item, List.mem_of_mem_filter kept, .inr rfl⟩
      · obtain ⟨item, kept, rfl⟩ := List.mem_map.mp inside
        exact ⟨item, kept, .inl rfl⟩
      · obtain ⟨item, kept, confirms⟩ := List.mem_flatMap.mp inside
        simp only [recvReady, List.mem_cons, List.not_mem_nil, or_false] at confirms
        rcases confirms with rfl | rfl
        · exact ⟨item, kept, .inl rfl⟩
        · exact ⟨item, kept, .inr rfl⟩
      · cases (port?_of_mem_startSends inside).symm.trans uses
    obtain ⟨item, kept, own | none⟩ := named
    · obtain rfl := Option.some.inj (own.symm.trans uses)
      exact List.mem_map_of_mem kept
    · cases none.symm.trans uses
  · cases member

/-! ### The scripts fit together -/

theorem putsAt_rdmaScript_of_notMem (absent : port ∉ items.map (PendingRdma.port network)) :
    putsAt port (rdmaScript network world rank items) = [] := by
  refine List.eq_nil_iff_forall_not_mem.mpr fun put member => absent ?_
  exact port_of_mem_rdmaScript (mem_putsAt.mp member) rfl

theorem getsAt_rdmaScript_of_notMem (absent : port ∉ items.map (PendingRdma.port network)) :
    getsAt port (rdmaScript network world rank items) = [] := by
  refine List.eq_nil_iff_forall_not_mem.mpr fun phase member => absent ?_
  exact port_of_mem_rdmaScript (mem_getsAt.mp member) rfl

theorem portPeer_portPeer (port : Port n) : portPeer (portPeer port) = port := by
  simp [portPeer]

section All

variable {all : Fin n → List PendingRdma} {capacity : ℕ}

/-- An end is held with a connection when its peer is. -/
theorem mem_peer_iff (collected : ∀ rank, Collected network rank (all rank)) (port : Port n) :
    portPeer port ∈ (all (portOwner (portPeer port))).map (PendingRdma.port network) ↔
      port ∈ (all (portOwner port)).map (PendingRdma.port network) := by
  rw [(collected _).mem, (collected _).mem]
  simp [portPeer]

/-- A stream has room for all that is put on it when it has room for an `RdmaPeerInfo` and one more
byte. -/
theorem rdmaNet_paired (collected : ∀ rank, Collected network rank (all rank))
    (room : peerInfoBytes + 1 ≤ capacity) : (rdmaNet network world all capacity).Paired where
  peer_peer := portPeer_portPeer
  owned := by
    intro rank entry member port uses
    exact (((collected rank).mem port).mp (port_of_mem_rdmaScript member uses)).1
  sorted := by
    intro rank
    change (rdmaScript network world rank (all rank)).Pairwise _
    unfold rdmaScript
    split
    · exact sorted_ofPhases 0 _
    · exact List.Pairwise.nil
  matched := by
    intro port
    change List.Forall₂ _
      (putsAt (portPeer port) (rdmaScript network world (portOwner (portPeer port))
        (all (portOwner (portPeer port)))))
      (getsAt port (rdmaScript network world (portOwner port) (all (portOwner port))))
    by_cases held : port ∈ (all (portOwner port)).map (PendingRdma.port network)
    · rw [putsAt_rdmaScript (collected _) ((mem_peer_iff collected port).mpr held),
        getsAt_rdmaScript (collected _) held]
      refine List.rel_append (List.forall₂_iff_zip.mpr ⟨by simp, fun {put phase} both => ?_⟩)
        (List.Forall₂.cons (by decide) List.Forall₂.nil)
      obtain ⟨puts, gets⟩ := List.of_mem_zip both
      obtain ⟨byte, -, rfl⟩ := List.mem_map.mp puts
      obtain rfl := (List.mem_replicate.mp gets).2
      exact Nat.zero_lt_one
    · rw [putsAt_rdmaScript_of_notMem fun held' => held ((mem_peer_iff collected port).mp held'),
        getsAt_rdmaScript_of_notMem held]
      exact List.Forall₂.nil
  room := by
    intro port
    change (putsAt port
      (rdmaScript network world (portOwner port) (all (portOwner port)))).length ≤ capacity
    by_cases held : port ∈ (all (portOwner port)).map (PendingRdma.port network)
    · rw [putsAt_rdmaScript (collected _) held]
      simpa using room
    · rw [putsAt_rdmaScript_of_notMem held]
      exact Nat.zero_le _

end All

/-! ### Tasks and what they see -/

/-- Tasks stand in four of the phases. -/
theorem work_of_mem_phases {k : ℕ} {ops : List (RdmaOp n)} {task : RdmaTask}
    (here : (rdmaPhases network world rank items)[k]? = some ops) (inside : .work task ∈ ops) :
    k = 2 ∧ (∃ item ∈ items, task = .connect item) ∨
      k = 3 ∧ (∃ item ∈ items, item.isSend = false ∧ task = prepareRecv world rank item) ∨
      k = 5 ∧ (∃ item ∈ items, task = .confirm item) ∨
      k = 6 ∧ .work task ∈ startSends world rank items := by
  match k with
  | 0 =>
      obtain rfl := Option.some.inj here
      obtain ⟨item, -, sends⟩ := List.mem_flatMap.mp inside
      obtain ⟨byte, -, same⟩ := List.mem_map.mp sends
      cases same
  | 1 =>
      obtain rfl := Option.some.inj here
      obtain ⟨item, -, receives⟩ := List.mem_flatMap.mp inside
      cases (List.mem_replicate.mp receives).2
  | 2 =>
      obtain rfl := Option.some.inj here
      obtain ⟨item, kept, same⟩ := List.mem_map.mp inside
      exact .inl ⟨rfl, item, kept, (Op.work.inj same).symm⟩
  | 3 =>
      obtain rfl := Option.some.inj here
      obtain ⟨item, kept, same⟩ := List.mem_map.mp inside
      obtain ⟨member, role⟩ := List.mem_filter.mp kept
      exact .inr (.inl ⟨rfl, item, member, by simpa using role, (Op.work.inj same).symm⟩)
  | 4 =>
      obtain rfl := Option.some.inj here
      obtain ⟨item, -, same⟩ := List.mem_map.mp inside
      cases same
  | 5 =>
      obtain rfl := Option.some.inj here
      obtain ⟨item, kept, confirms⟩ := List.mem_flatMap.mp inside
      simp only [recvReady, List.mem_cons, List.not_mem_nil, or_false, reduceCtorEq, false_or,
        Op.work.injEq] at confirms
      exact .inr (.inr (.inl ⟨rfl, item, kept, confirms⟩))
  | 6 =>
      obtain rfl := Option.some.inj here
      exact .inr (.inr (.inr ⟨rfl, inside⟩))
  | k + 7 => simp [rdmaPhases] at here

theorem task_of_mem_startSends {task : RdmaTask}
    (inside : .work task ∈ startSends world rank items) :
    (∃ item ∈ items, task = .prepare item ∨ task = .start item) ∨ task = .startEngine := by
  unfold startSends at inside
  split at inside
  · rcases List.mem_append.mp inside with prepares | last
    · obtain ⟨item, kept, same⟩ := List.mem_map.mp prepares
      exact .inl ⟨item, List.mem_of_mem_filter kept, .inl (Op.work.inj same).symm⟩
    · exact .inr (Op.work.inj (List.mem_singleton.mp last))
  · obtain ⟨item, kept, same⟩ := List.mem_map.mp inside
    exact .inl ⟨item, List.mem_of_mem_filter kept, .inr (Op.work.inj same).symm⟩

/-- Before a byte is checked it was received. -/
theorem get_before_confirm {item : PendingRdma} {j : ℕ}
    (here : (items.flatMap (recvReady network))[j]? = some (.work (.confirm item))) :
    Op.get (item.port network) ∈ (items.flatMap (recvReady network)).take j := by
  induction items generalizing j with
  | nil => cases here
  | cons first items ih =>
      rw [List.flatMap_cons, recvReady, List.cons_append, List.cons_append,
        List.nil_append] at here ⊢
      match j with
      | 0 => cases Option.some.inj here
      | 1 =>
          obtain rfl := RdmaTask.confirm.inj (Op.work.inj (Option.some.inj here))
          simp
      | j + 2 =>
          have later := ih here
          simp [later]

section Views

variable {all : Fin n → List PendingRdma} {capacity : ℕ}
  (collected : ∀ rank, Collected network rank (all rank))
include collected

theorem message_eq (held : port ∈ (all (portOwner port)).map (PendingRdma.port network)) :
    (rdmaNet network world all capacity).message port = portMessage world (portPeer port) := by
  change (putsAt (portPeer port) (rdmaScript network world (portOwner (portPeer port))
    (all (portOwner (portPeer port))))).map Prod.snd = _
  rw [putsAt_rdmaScript (collected _) ((mem_peer_iff collected port).mpr held), List.map_append,
    List.map_map]
  simp [portMessage, Function.comp_def]

variable (capacity) in
/-- A task of a script belongs to an end the rank holds, and sees what has come in there. -/
theorem task_cases {k phase : ℕ} {task : RdmaTask}
    (here : (rdmaScript network world rank (all rank))[k]? = some (phase, .work task)) :
    (∃ item ∈ all rank, task = .connect item ∧ phase = 2 ∧
      (rdmaNet network world all capacity).viewAt rank
        ((rdmaScript network world rank (all rank)).take k) (item.port network) =
          wirePeerInfo (world.info (portPeer (item.port network)))
            (world.padding (portPeer (item.port network)))) ∨
    (∃ item ∈ all rank, task = .confirm item ∧ phase = 5 ∧
      (rdmaNet network world all capacity).viewAt rank
        ((rdmaScript network world rank (all rank)).take k) (item.port network) =
          portMessage world (portPeer (item.port network))) ∨
    (∃ item ∈ all rank, item.isSend = false ∧ task = prepareRecv world rank item ∧ phase = 3) ∨
    .work task ∈ startSends world rank (all rank) ∧ phase = 6 := by
  have member : (phase, .work task) ∈ rdmaScript network world rank (all rank) :=
    List.mem_of_getElem? here
  have whole : rdmaScript network world rank (all rank) =
      ofPhases 0 (rdmaPhases network world rank (all rank)) := by
    unfold rdmaScript at member ⊢
    split at member
    next some_edge => rw [if_pos some_edge]
    next => cases member
  rw [whole] at here ⊢
  obtain ⟨j, ops, -, found, at_j, behind⟩ := take_ofPhases here
  rw [Nat.sub_zero] at found behind
  have owner (item : PendingRdma) (inside : item ∈ all rank) :
      portOwner (item.port network) = rank :=
    (((collected rank).mem _).mp (List.mem_map_of_mem inside)).1
  have held (item : PendingRdma) (inside : item ∈ all rank) :
      item.port network ∈
        (all (portOwner (item.port network))).map (PendingRdma.port network) := by
    rw [owner item inside]
    exact List.mem_map_of_mem inside
  have message_length (port : Port n) :
      (portMessage world port).length = peerInfoBytes + 1 := by
    simp [portMessage]
  have infos (item : PendingRdma) (inside : item ∈ all rank) :
      getCount (item.port network) ((all rank).flatMap (recvInfo network)) = peerInfoBytes := by
    rw [getCount, filterMap_flatMap_of_mem (collected rank).nodup (fun other _ apart => by
      rw [getAt_recvInfo, if_neg apart]) inside rfl, getAt_recvInfo, if_pos rfl,
      List.length_replicate]
  have no_gets (port : Port n) :
      getCount port ((all rank).flatMap (sendInfo network world)) = 0 := by
    rw [getCount, List.filterMap_flatMap, List.length_eq_zero_iff]
    exact List.flatMap_eq_nil_iff.mpr fun _ _ => getAt_sendInfo
  rcases work_of_mem_phases found (List.mem_of_getElem? at_j) with
    ⟨rfl, item, inside, rfl⟩ | ⟨rfl, item, inside, role, rfl⟩ | ⟨rfl, item, inside, rfl⟩ |
    ⟨rfl, inside⟩
  · refine .inl ⟨item, inside, rfl, rfl, ?_⟩
    obtain rfl := Option.some.inj found
    have counted : (getsAt (item.port network) (ofPhases 0
        ((rdmaPhases network world rank (all rank)).take 2) ++
          (((all rank).map (.work ∘ .connect) : List (RdmaOp n)).take j).map (2, ·))).length =
        peerInfoBytes := by
      rw [getsAt_append, getsAt_map, ← List.map_take]
      simp only [rdmaPhases, List.take_succ_cons, List.take_zero, getsAt_ofPhases,
        infos item inside,
        Function.comp_def, getCount_work, no_gets]
      simp [ofPhases]
    have own : (rdmaNet network world all capacity).owner (item.port network) = rank :=
      owner item inside
    rw [Net.viewAt, if_pos own, message_eq collected (held item inside), behind,
      counted, portMessage, List.take_left' (length_wirePeerInfo _ _)]
  · exact .inr (.inr (.inl ⟨item, inside, role, rfl, rfl⟩))
  · refine .inr (.inl ⟨item, inside, rfl, rfl, ?_⟩)
    obtain rfl := Option.some.inj found
    have got : 0 < getCount (item.port network)
        (((all rank).flatMap (recvReady network)).take j : List (RdmaOp n)) := by
      refine List.length_pos_of_mem (a := ())
        (List.mem_filterMap.mpr ⟨_, get_before_confirm at_j, ?_⟩)
      simp [Op.getAt]
    have counted : peerInfoBytes + 1 ≤ (getsAt (item.port network) (ofPhases 0
        ((rdmaPhases network world rank (all rank)).take 5) ++
          (((all rank).flatMap (recvReady network) : List (RdmaOp n)).take j).map
            (5, ·))).length := by
      rw [getsAt_append, getsAt_map]
      simp only [rdmaPhases, List.take_succ_cons, List.take_zero, getsAt_ofPhases,
        infos item inside,
        no_gets, List.length_append, List.length_replicate]
      omega
    have own : (rdmaNet network world all capacity).owner (item.port network) = rank :=
      owner item inside
    rw [Net.viewAt, if_pos own, message_eq collected (held item inside), behind,
      List.take_of_length_le (by rw [message_length]; exact counted)]
  · exact .inr (.inr (.inr ⟨inside, rfl⟩))

end Views

end Bootstrap
end NanoNccl
