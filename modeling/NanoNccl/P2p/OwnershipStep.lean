import NanoNccl.P2p.Ownership

/-!
# Actions of a rank

Each action of `create_mpi_p2p_connections` and `~MpiP2pOwner` keeps the invariant of the rank that
takes it.
-/

namespace NanoNccl
namespace P2p

open Bootstrap (TransportKind receiver incomingEdge)

variable {n : ℕ} {host : Host n}

namespace RankInv

variable {sent : Sent n} {names names' : ControlName → Option (ControlFile n)} {rank : Fin n}
  {process : Process n}

/-- Before a program point, no later collective has been entered. -/
theorem not_sent (inv : RankInv host sent names rank process) {collective : Collective}
    (early : process.pc.position ≤ collective.position) : process.sent collective = none := by
  by_contra there
  have before := inv.entered collective (Option.isSome_iff_ne_none.mpr there)
  omega

/-- The region of the next rank is opened at one point. -/
theorem outgoing_eq_none (inv : RankInv host sent names rank process)
    (early : process.pc.position ≤ 15) : process.outgoingRegion = none := by
  by_contra there
  obtain ⟨region, here⟩ := Option.ne_none_iff_exists'.mp there
  have after := (inv.outgoing region here).2.2.2
  omega

/-! ### Exporting the region -/

theorem allocate (inv : RankInv host sent names rank process) (at_pc : process.pc = .allocate) :
    RankInv host sent names rank
      { process with
        pc := .exportRegion
        owner := { process.owner with localRegion := some rank }
        region := .allocated } := by
  have start : process.pc.position = 0 := by simp [at_pc]
  have unnamed := inv.point.unnamed (by omega)
  refine
    { inv with
      point := .of_export le_rfl (by simp) unnamed (by rintro ⟨⟩)
      entered := fun collective here => absurd (inv.entered collective here) (by omega)
      outgoing := fun region here => absurd (inv.outgoing region here).2.2.2 (by omega)
      handle := fun region here => ⟨(inv.handle region here).1, by rintro ⟨⟩⟩
      sent_handle := fun region here => ⟨(inv.sent_handle region here).1, by rintro ⟨⟩⟩
      localRegion := fun _ _ => rfl, linked := ?_, published := ?_, freed := by rintro ⟨⟩ }
  · intro name here
    simp [Process.linked, unnamed.1] at here
  · intro name here
    simp [unnamed.2] at here

theorem exportRegion (inv : RankInv host sent names rank process)
    (at_pc : process.pc = .exportRegion) :
    RankInv host sent names rank
      { process with pc := .openControl 0, localHandle := some rank } := by
  have start : process.pc.position = 1 := by simp [at_pc]
  have later : process.pc.position ≤ 2 := by omega
  have unnamed := inv.point.unnamed (by omega)
  have exports := inv.point.exports (by omega) (by omega)
  refine
    { inv with
      point := .of_export (by simp) (by simp) unnamed exports
      entered := fun collective here => (inv.entered collective here).trans_le later
      outgoing := fun region here => absurd (inv.outgoing region here).2.2.2 (by omega)
      handle := fun region here => ⟨(Option.some.inj here).symm, exports⟩
      linked := ?_, published := ?_ }
  · intro name here
    simp [Process.linked, unnamed.1] at here
  · intro name here
    simp [unnamed.2] at here

/-- The control file is created, sized or dropped. -/
theorem control (inv : RankInv host sent names rank process) {pc : Pc n}
    (before : process.pc.position ≤ 4) (later : process.pc.position ≤ pc.position)
    (point : Point host sent rank (process.goto pc))
    (linked : ∀ name, (process.goto pc).linked = some name → names' name = some (.created rank)) :
    RankInv host sent names' rank (process.goto pc) :=
  { inv with
    point := point
    entered := fun collective here => (inv.entered collective here).trans_le later
    outgoing := fun region here => absurd (inv.outgoing region here).2.2.2 (by omega)
    linked := linked
    published := fun name here => by
      simp [Process.goto, (inv.point.unnamed before).2] at here }

/-- `shm_open` has created the control file. -/
theorem openControl (inv : RankInv host sent names rank process) {attempt : ℕ} {name : ControlName}
    (at_pc : process.pc = .openControl attempt) (found : names' name = some (.created rank))
    (sequence : ℕ) :
    RankInv host sent names' rank
      { process.goto (.sizeControl name) with sequence := sequence } := by
  have unnamed := inv.point.unnamed (by simp [at_pc])
  have exports := inv.point.exports (by simp [at_pc]) (by simp [at_pc])
  have created : RankInv host sent names' rank (process.goto (.sizeControl name)) := by
    refine inv.control (by simp [at_pc]) (by simp [at_pc])
      (.of_export (by simp) (by simp) unnamed exports) ?_
    intro other here
    obtain rfl := Option.some.inj here
    exact found
  exact created.relax _ _ sequence

/-- The name is in use. -/
theorem retry (inv : RankInv host sent names rank process) {attempt : ℕ}
    (at_pc : process.pc = .openControl attempt) (sequence : ℕ) :
    RankInv host sent names rank
      { process.goto (.openControl (attempt + 1)) with sequence := sequence } := by
  have unnamed := inv.point.unnamed (by simp [at_pc])
  have exports := inv.point.exports (by simp [at_pc]) (by simp [at_pc])
  have again : RankInv host sent names rank (process.goto (.openControl (attempt + 1))) := by
    refine inv.control (by simp [at_pc]) (by simp [at_pc])
      (.of_export (by simp) (by simp) unnamed exports) ?_
    intro other here
    simp [Process.linked, Process.goto, unnamed.1] at here
  exact again.relax _ _ sequence

theorem sizeControl (inv : RankInv host sent names rank process) {name : ControlName}
    (at_pc : process.pc = .sizeControl name) :
    RankInv host sent names rank (process.goto (.mapControl name)) := by
  have unnamed := inv.point.unnamed (by simp [at_pc])
  have exports := inv.point.exports (by simp [at_pc]) (by simp [at_pc])
  refine inv.control (by simp [at_pc]) (by simp [at_pc])
    (.of_export (by simp) (by simp) unnamed exports) ?_
  intro other here
  obtain rfl := Option.some.inj here
  exact inv.linked name (by rw [Process.linked, at_pc])

/-- The rank has its control file. -/
theorem mapControl (inv : RankInv host sent names rank process) {name : ControlName}
    (at_pc : process.pc = .mapControl name) :
    RankInv host sent names rank
      { process with
        pc := .enter .handles
        controlName := some name
        owner :=
          { process.owner with
            localControlName := some name
            localCloseControl := some (.created rank) } } := by
  have start : process.pc.position = 4 := by simp [at_pc]
  have later : process.pc.position ≤ 5 := by omega
  have found : names name = some (.created rank) := inv.linked name (by rw [Process.linked, at_pc])
  refine
    { inv with
      point := .of_early le_rfl (by simp)
      entered := fun collective here => (inv.entered collective here).trans_le later
      outgoing := fun region here => absurd (inv.outgoing region here).2.2.2 (by omega)
      sent_name := ?_, localControl := fun file here => (Option.some.inj here).symm
      linked := ?_, published := fun other here => .inl here }
  · intro other here
    have silent : process.sent .controls = none := inv.not_sent (start.trans_le (by simp))
    rw [silent] at here
    cases here
  · intro other here
    obtain rfl : name = other := Option.some.inj here
    exact found

/-- The rank exports nothing, or it has failed to. -/
theorem enterHandles (inv : RankInv host sent names rank process)
    (before : process.pc.position ≤ 4) :
    RankInv host sent names' rank (process.goto (.enter .handles)) := by
  have unnamed := inv.point.unnamed before
  refine inv.control before (before.trans (by simp)) (.of_early (by simp) (by simp)) ?_
  intro name here
  simp [Process.linked, Process.goto, unnamed.1] at here

/-! ### Collectives -/

/-- The rank enters a collective. -/
theorem enter (inv : RankInv host sent names rank process) {collective : Collective}
    (at_pc : process.pc = .enter collective) :
    RankInv host sent names rank
      { process with
        pc := .inside collective
        sent := Function.update process.sent collective
          (some (process.contribution collective)) } := by
  have start : process.pc.position = collective.position := by simp [at_pc]
  have odd := collective.position_odd
  have later : process.pc.position ≤ collective.position + 1 := by omega
  have told : ∀ other value, Function.update process.sent collective
      (some (process.contribution collective)) other = some value →
        process.contribution other = value ∧ other = collective ∨
          process.sent other = some value := by
    intro other value here
    by_cases same : other = collective
    · subst same
      rw [Function.update_self] at here
      exact .inl ⟨Option.some.inj here, rfl⟩
    · rw [Function.update_of_ne same] at here
      exact .inr here
  refine
    { inv with
      point := inv.point.inside at_pc
      entered := ?_
      outgoing := fun _ => inv.outgoing_before later
      sent_handle := ?_, sent_name := ?_, sent_opened := ?_, sent_vote := ?_
      linked := fun _ => inv.named (by omega) (by omega)
      published := fun _ => inv.published_named (by omega) (by omega) }
  · intro other here
    obtain ⟨value, there⟩ := Option.isSome_iff_exists.mp here
    rcases told other value there with ⟨-, rfl⟩ | before
    · exact Nat.lt_succ_self _
    · exact (inv.entered other (Option.isSome_iff_exists.mpr ⟨value, before⟩)).trans_le later
  · intro region here
    rcases told .handles _ here with ⟨mine, -⟩ | before
    · exact inv.handle region (Contribution.handle.inj mine)
    · exact inv.sent_handle region before
  · intro name here
    rcases told .controls _ here with ⟨mine, -⟩ | before
    · exact Contribution.name.inj mine
    · exact inv.sent_name name before
  · intro value here
    rcases told .opened _ here with ⟨mine, -⟩ | before
    · exact mine.symm
    · exact inv.sent_opened value before
  · intro value here
    rcases told .allocation _ here with ⟨mine, -⟩ | before
    · exact ⟨process.localOk, mine.symm⟩
    · exact inv.sent_vote value before

/-- `arm_local_close_wait`, and without an incoming edge the step past it. -/
theorem arm (inv : RankInv host sent names rank process) (at_pc : process.pc = .inside .opened)
    (entered : AllEntered sent .opened) :
    RankInv host sent names rank (process.leave host rank sent .opened) := by
  have start : process.pc.position = 20 := by simp [at_pc]
  have voted := inv.point.voted (by omega) (by omega)
  obtain ⟨collective, next, low, high⟩ : ∃ collective : Collective,
      (if process.allOk then Collective.barrier else .mappingErrors) = collective ∧
        21 ≤ collective.position ∧ collective.position ≤ 23 := by
    refine ⟨_, rfl, ?_⟩
    split <;> decide
  have waiting : ∀ waits : Bool,
      (host.hasIncoming rank = true → sent (incomingEdge rank) .opened = some (.opened true) →
        waits = true) →
      RankInv host sent names rank
        { process with
          pc := .enter collective
          owner := { process.owner with waitForClose := waits } } := by
    intro waits known
    exact
      { inv with
        point := .of_armed low (high.trans (by simp)) voted ⟨entered, known⟩
        entered := fun other here =>
          (inv.entered other here).trans_le (start.le.trans (Nat.le_of_succ_le low))
        outgoing := fun _ => inv.outgoing_before (start.le.trans (Nat.le_of_succ_le low))
        linked := fun _ => inv.named (by omega) (by omega)
        published := fun _ => inv.published_named (by omega) (by omega) }
  simp only [Process.leave, next]
  by_cases incoming : host.hasIncoming rank = true
  · rw [if_pos incoming]
    exact waiting _ fun _ opened => decide_eq_true opened
  · rw [if_neg incoming]
    exact waiting process.owner.waitForClose fun here => absurd here incoming

/-- The rank leaves a collective. -/
theorem leave (inv : RankInv host sent names rank process) {collective : Collective}
    (at_pc : process.pc = .inside collective) (entered : AllEntered sent collective)
    (votes : ∀ other value, sent other .allocation = some value → ∃ ok, value = .vote ok) :
    RankInv host sent names rank (process.leave host rank sent collective) := by
  cases collective with
  | handles =>
      exact inv.goto (by simp [at_pc]) (by simp [at_pc]) (by simp) (.of_early (by simp) (by simp))
  | controls =>
      exact inv.goto (by simp [at_pc]) (by simp [at_pc]) (by simp) (.of_early (by simp) (by simp))
  | allocation =>
      simp only [Process.leave]
      split
      · next voted =>
          exact inv.goto (by simp [at_pc]) (by simp [at_pc]) (by simp)
            (.of_voted (by simp) (by simp) (by simp) voted)
      · next against =>
          refine inv.goto (by simp [at_pc]) (by simp [at_pc]) (by simp)
            (.of_failed (by simp) (by simp) ?_)
          obtain ⟨other, refused⟩ := not_forall.mp against
          obtain ⟨value, here⟩ := Option.isSome_iff_exists.mp (entered other)
          obtain ⟨ok, rfl⟩ := votes other value here
          cases ok with
          | false => exact ⟨other, here⟩
          | true => exact absurd here refused
  | allocationErrors =>
      have failed := inv.point.failed (by simp [at_pc]) (by simp [at_pc])
      exact inv.goto (by simp [at_pc]) (by simp [at_pc]) (by simp)
        (.of_destroys (by simp) (by simp) (.inl failed))
  | mapping =>
      have voted := inv.point.voted (by simp [at_pc]) (by simp [at_pc])
      have next : RankInv host sent names rank (process.goto (.enter .opened)) :=
        inv.goto (by simp [at_pc]) (by simp [at_pc]) (by simp)
          (.of_voted (by simp) (by simp) (by simp) voted)
      exact next.relax _ _ _
  | opened => exact inv.arm at_pc entered
  | mappingErrors =>
      have armed := inv.point.armed (by simp [at_pc]) (by simp [at_pc])
      exact inv.goto (by simp [at_pc]) (by simp [at_pc]) (by simp)
        (.of_destroys (by simp) (by simp) (.inr { armed with }))
  | barrier =>
      have voted := inv.point.voted (by simp [at_pc]) (by simp [at_pc])
      have armed := inv.point.armed (by simp [at_pc]) (by simp [at_pc])
      exact inv.goto (by simp [at_pc]) (by simp [at_pc]) (by simp)
        (.of_armed (by simp) (by simp) voted { armed with })

/-! ### Opening the next rank's region -/

/-- The rank opens nothing, or it has failed to. -/
theorem enterMapping (inv : RankInv host sent names rank process) (low : 13 ≤ process.pc.position)
    (high : process.pc.position ≤ 16) :
    RankInv host sent names rank (process.goto (.enter .mapping)) := by
  have voted := inv.point.voted low (by omega)
  have later : process.pc.position ≤ 17 := by omega
  exact inv.goto (by omega) later (by simp)
    (.of_voted (by simp) (by simp) (.inr (by simp)) voted)

theorem openPeer (inv : RankInv host sent names rank process) (at_pc : process.pc = .openPeer)
    (connects : host.hasOutgoing rank = true) :
    RankInv host sent names rank (process.goto (.mapPeer (.created (receiver rank)))) := by
  have start : process.pc.position = 13 := by simp [at_pc]
  have later : process.pc.position ≤ 14 := by omega
  have voted := inv.point.voted (by omega) (by omega)
  refine inv.goto (by omega) later (by simp)
    (.of_connecting le_rfl (by simp) voted connects ?_)
  intro file here
  exact (Pc.mapPeer.inj here).symm

theorem mapPeer (inv : RankInv host sent names rank process) {file : ControlFile n}
    (at_pc : process.pc = .mapPeer file) :
    RankInv host sent names rank
      { process with
        pc := .openRegion
        owner := { process.owner with remoteCloseControl := some file } } := by
  have start : process.pc.position = 14 := by simp [at_pc]
  have later : process.pc.position ≤ 15 := by omega
  have voted := inv.point.voted (by omega) (by omega)
  have connects := inv.point.connects (by omega) (by omega)
  obtain rfl := inv.point.peerControl file at_pc
  exact
    { inv with
      point := .of_connecting (by simp) le_rfl voted connects (by rintro _ ⟨⟩)
      entered := fun other here => (inv.entered other here).trans_le later
      outgoing := fun region here => absurd (inv.outgoing region here).2.2.2 (by omega)
      remoteControl := fun file here => (Option.some.inj here).symm
      linked := fun _ => inv.named (by omega) (by omega)
      published := fun _ => inv.published_named (by omega) (by omega) }

theorem openRegion (inv : RankInv host sent names rank process) (at_pc : process.pc = .openRegion) :
    RankInv host sent names rank
      { process with
        pc := .opened
        owner := { process.owner with remoteRegion := some (receiver rank) }
        outgoingRegion := some (receiver rank)
        mapping := .opened (receiver rank) } := by
  have start : process.pc.position = 15 := by simp [at_pc]
  have later : process.pc.position ≤ 16 := by omega
  have voted := inv.point.voted (by omega) (by omega)
  have connects := inv.point.connects (by omega) (by omega)
  refine
    { inv with
      point := .of_voted (by simp) (by simp) (.inr le_rfl) voted
      entered := fun other here => (inv.entered other here).trans_le later
      exporter := rfl
      outgoing := fun region here =>
        ⟨(Option.some.inj here).symm, connects, voted, Nat.lt_of_succ_le le_rfl⟩
      sent_opened := ?_
      remoteRegion := fun region here => here
      linked := fun _ => inv.named (by omega) (by omega)
      published := fun _ => inv.published_named (by omega) (by omega) }
  intro value here
  have silent : process.sent .opened = none := inv.not_sent (start.trans_le (by simp))
  rw [silent] at here
  cases here

/-- The name of the control file is given up. -/
theorem unlink (inv : RankInv host sent names rank process) (at_pc : process.pc = .unlink) :
    RankInv host sent names' rank
      { process with pc := .live, owner := { process.owner with localControlName := none } } := by
  have start : process.pc.position = 25 := by simp [at_pc]
  have later : process.pc.position ≤ 26 := by omega
  have voted := inv.point.voted (by omega) (by omega)
  have armed := inv.point.armed (by omega) (by omega)
  exact
    { inv with
      point := .of_armed (by simp) le_rfl voted { armed with }
      entered := fun other here => (inv.entered other here).trans_le later
      outgoing := fun _ => inv.outgoing_before later
      linked := by rintro _ ⟨⟩
      published := fun _ _ => .inr (.inl armed.entered) }

theorem live (inv : RankInv host sent names rank process) (at_pc : process.pc = .unlink) :
    RankInv host sent names rank (process.goto .live) := by
  have start : process.pc.position = 25 := by simp [at_pc]
  have later : process.pc.position ≤ 26 := by omega
  have voted := inv.point.voted (by omega) (by omega)
  have armed := inv.point.armed (by omega) (by omega)
  exact inv.goto (by omega) later (by simp)
    (.of_armed (by simp) le_rfl voted { armed with })

/-! ### The destructor -/

theorem destroy (inv : RankInv host sent names rank process) (at_pc : process.pc = .live) :
    RankInv host sent names rank (process.goto .close) := by
  have start : process.pc.position = 26 := by simp [at_pc]
  have later : process.pc.position ≤ 27 := by omega
  have armed := inv.point.armed (by omega) (by omega)
  exact inv.goto (by omega) later (by simp)
    (.of_destroys le_rfl (by rintro ⟨⟩) (.inr { armed with }))

/-- Steps of the destructor that change nothing the rank holds. -/
theorem descend (inv : RankInv host sent names rank process) {pc : Pc n}
    (low : 27 ≤ process.pc.position) (later : process.pc.position ≤ pc.position)
    (apart : pc.position ≠ 28) (high : pc.position ≤ 32) :
    RankInv host sent names rank (process.goto pc) := by
  have known := inv.point.destroys low (later.trans high)
  exact inv.goto (by omega) later high
    (.of_destroys (low.trans later) apart (known.imp_right fun armed => { armed with }))

/-- The mapping is closed, or it cannot be. -/
theorem close (inv : RankInv host sent names rank process) (at_pc : process.pc = .close)
    {pc : Pc n} {mapping : Mapping n}
    (next : pc = .wait ∨ pc = .signal ∧ ∃ exporter, mapping = .closed exporter)
    (same : mapping.exporter = process.outgoingRegion) :
    RankInv host sent names rank
      { process with
        pc := pc
        owner := { process.owner with remoteRegion := none }
        mapping := mapping } := by
  have start : process.pc.position = 27 := by simp [at_pc]
  have later : process.pc.position ≤ pc.position ∧ pc.position ≤ 32 := by
    rcases next with rfl | ⟨rfl, -⟩ <;> simp [at_pc]
  have known := inv.point.destroys (by omega) (by omega)
  refine
    { inv with
      point := ?_
      entered := fun other there => (inv.entered other there).trans_le later.1
      exporter := same
      outgoing := fun _ => inv.outgoing_before later.1
      remoteRegion := by rintro _ ⟨⟩
      linked := ?_, published := ?_ }
  · rcases next with rfl | ⟨rfl, closed⟩
    · exact .of_destroys (by simp) (by rintro ⟨⟩) (known.imp_right fun armed => { armed with })
    · exact .of_signal rfl (known.imp_right fun armed => { armed with }) closed
  · intro name there
    refine inv.named (by omega) (by omega) ?_
    rcases next with rfl | ⟨rfl, -⟩ <;> exact there
  · intro name there
    refine (inv.published_named (by omega) (by omega) there).imp_left fun linked => ?_
    rcases next with rfl | ⟨rfl, -⟩ <;> exact linked

/-- The region is freed, or `cudaFree` fails. -/
theorem free (inv : RankInv host sent names rank process) {senderClosed : Bool} {region : Region}
    (at_pc : process.pc = .free senderClosed) (next : region = .freed ∨ region = process.region) :
    RankInv host sent names rank
      { process with
        pc := .unmap
        owner := { process.owner with localRegion := none }
        region := region } := by
  have start : process.pc.position = 31 := by simp [at_pc]
  have later : process.pc.position ≤ 32 := by omega
  have known := inv.point.destroys (by omega) (by omega)
  have kept : process.region ≠ .unallocated → region ≠ .unallocated := by
    rcases next with rfl | rfl
    · exact fun _ => by rintro ⟨⟩
    · exact id
  exact
    { inv with
      point := .of_destroys (by simp) (by rintro ⟨⟩)
        (known.imp_right fun armed => { armed with })
      entered := fun other there => (inv.entered other there).trans_le later
      outgoing := fun _ => inv.outgoing_before later
      handle := fun region there => (inv.handle region there).imp_right kept
      sent_handle := fun region there => (inv.sent_handle region there).imp_right kept
      localRegion := by rintro _ ⟨⟩
      linked := fun _ => inv.named (by omega) (by omega)
      published := fun _ => inv.published_named (by omega) (by omega)
      freed := fun _ => known.symm.imp Armed.entered id }

/-- The owner is gone. -/
theorem unmap (inv : RankInv host sent names rank process) (at_pc : process.pc = .unmap) :
    RankInv host sent names' rank
      { process with
        pc := .gone
        owner :=
          { process.owner with localCloseControl := none, remoteCloseControl := none } } := by
  have start : process.pc.position = 32 := by simp [at_pc]
  have later : process.pc.position ≤ 33 := by omega
  have known := inv.point.destroys (by omega) (by omega)
  exact
    { inv with
      point := .of_gone rfl
      entered := fun other there => (inv.entered other there).trans_le later
      outgoing := fun _ => inv.outgoing_before later
      localControl := by rintro _ ⟨⟩, remoteControl := by rintro _ ⟨⟩, linked := by rintro _ ⟨⟩
      published := fun _ _ => .inr (known.symm.imp Armed.entered id) }

end RankInv

end P2p
end NanoNccl
