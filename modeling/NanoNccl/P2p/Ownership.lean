import NanoNccl.P2p.Create

/-!
# Who holds what

The program points of `create_mpi_p2p_connections` and `~MpiP2pOwner` are passed in one order. What
a rank holds at each of them, and what it knows of the other ranks there through the collectives, is
an invariant of the rank; contributions are never taken back, so the steps of the other ranks keep
it.
-/

namespace NanoNccl
namespace P2p

open Bootstrap (TransportKind receiver incomingEdge)

variable {n : ℕ} {host : Host n}

/-! ### Order of the program points -/

/-- Number of the program point in front of a collective. -/
@[simp] def Collective.position : Collective → ℕ
  | .handles => 5
  | .controls => 7
  | .allocation => 9
  | .allocationErrors => 11
  | .mapping => 17
  | .opened => 19
  | .mappingErrors => 21
  | .barrier => 23

theorem Collective.position_odd (collective : Collective) :
    collective.position % 2 = 1 ∧ 5 ≤ collective.position ∧ collective.position ≤ 23 ∧
      (collective.position ≤ 11 ∨ 17 ≤ collective.position) := by
  cases collective <;> decide

/-- Numbers of the program points, in the order they are passed. -/
@[simp] def Pc.position : Pc n → ℕ
  | .allocate => 0
  | .exportRegion => 1
  | .openControl _ => 2
  | .sizeControl _ => 3
  | .mapControl _ => 4
  | .enter collective => collective.position
  | .inside collective => collective.position + 1
  | .openPeer => 13
  | .mapPeer _ => 14
  | .openRegion => 15
  | .opened => 16
  | .unlink => 25
  | .live => 26
  | .close => 27
  | .signal => 28
  | .wait => 29
  | .reload => 30
  | .free _ => 31
  | .unmap => 32
  | .gone => 33

/-- The name under which the control file of a rank can be found. -/
def Process.linked (process : Process n) : Option ControlName :=
  match process.pc with
  | .sizeControl name | .mapControl name => some name
  | .gone => none
  | _ => process.owner.localControlName

@[simp] theorem Process.goto_pc (process : Process n) (pc : Pc n) : (process.goto pc).pc = pc := rfl

theorem Process.linked_eq {process : Process n} (low : 5 ≤ process.pc.position)
    (high : process.pc.position ≤ 32) : process.linked = process.owner.localControlName := by
  rw [Process.linked]
  split
  · next at_pc => simp [at_pc] at low
  · next at_pc => simp [at_pc] at low
  · next at_pc => simp [at_pc] at high
  · rfl

/-- The rank whose region a mapping is of. -/
def Mapping.exporter : Mapping n → Option (Fin n)
  | .never => none
  | .opened exporter | .closed exporter => some exporter

/-! ### What the ranks have told each other -/

/-- Contributions of all ranks. -/
abbrev Sent (n : ℕ) : Type := Fin n → Collective → Option (Contribution n)

/-- Some rank has failed to allocate or to export its region. -/
def AllocationFailed (sent : Sent n) : Prop := ∃ rank, sent rank .allocation = some (.vote false)

/-- The rank will wait for its predecessor if that one has opened its region. -/
structure Armed (host : Host n) (sent : Sent n) (rank : Fin n) (process : Process n) : Prop where
  entered : AllEntered sent .opened
  waits : host.hasIncoming rank = true →
    sent (incomingEdge rank) .opened = some (.opened true) → process.owner.waitForClose = true

/-- More has been contributed. -/
def Grown (sent sent' : Sent n) : Prop :=
  ∀ rank collective value, sent rank collective = some value →
    sent' rank collective = some value

section Grown

variable {sent sent' : Sent n}

theorem AllVoted.grown {vote : Collective} (grown : Grown sent sent') (all : AllVoted sent vote) :
    AllVoted sent' vote := fun rank => grown rank vote _ (all rank)

theorem AllEntered.grown {collective : Collective} (grown : Grown sent sent')
    (all : AllEntered sent collective) : AllEntered sent' collective := by
  intro rank
  obtain ⟨value, here⟩ := Option.isSome_iff_exists.mp (all rank)
  rw [grown rank collective value here]
  rfl

theorem AllocationFailed.grown (grown : Grown sent sent') (failed : AllocationFailed sent) :
    AllocationFailed sent' := by
  obtain ⟨rank, against⟩ := failed
  exact ⟨rank, grown rank _ _ against⟩

theorem Armed.grown {rank : Fin n} {process : Process n} (grown : Grown sent sent')
    (armed : Armed host sent rank process) : Armed host sent' rank process where
  entered := armed.entered.grown grown
  waits := by
    intro incoming opened
    obtain ⟨value, here⟩ := Option.isSome_iff_exists.mp (armed.entered (incomingEdge rank))
    have same : value = .opened true :=
      Option.some.inj ((grown _ _ _ here).symm.trans opened)
    exact armed.waits incoming (here.trans (congrArg some same))

theorem not_failed_of_voted (all : AllVoted sent .allocation) : ¬AllocationFailed sent := by
  rintro ⟨rank, against⟩
  rw [all rank] at against
  cases against

end Grown

/-! ### The invariant of a rank -/

/-- What holds at the program point of a rank. -/
structure Point (host : Host n) (sent : Sent n) (rank : Fin n) (process : Process n) : Prop where
  unnamed : process.pc.position ≤ 4 →
    process.owner.localControlName = none ∧ process.controlName = none
  exports : 1 ≤ process.pc.position → process.pc.position ≤ 4 → process.region ≠ .unallocated
  failed : 11 ≤ process.pc.position → process.pc.position ≤ 12 → AllocationFailed sent
  voted : 13 ≤ process.pc.position → process.pc.position ≤ 26 → AllVoted sent .allocation
  connects : 14 ≤ process.pc.position → process.pc.position ≤ 15 → host.hasOutgoing rank = true
  peerControl : ∀ file, process.pc = .mapPeer file → file = .created (receiver rank)
  armed : 21 ≤ process.pc.position → process.pc.position ≤ 26 → Armed host sent rank process
  destroys : 27 ≤ process.pc.position → process.pc.position ≤ 32 →
    AllocationFailed sent ∨ Armed host sent rank process
  signals : process.pc.position = 28 → ∃ exporter, process.mapping = .closed exporter

/-- What holds of a rank. -/
structure RankInv (host : Host n) (sent : Sent n) (names : ControlName → Option (ControlFile n))
    (rank : Fin n) (process : Process n) : Prop where
  point : Point host sent rank process
  entered : ∀ collective, (process.sent collective).isSome = true →
    collective.position < process.pc.position
  exporter : process.mapping.exporter = process.outgoingRegion
  outgoing : ∀ region, process.outgoingRegion = some region →
    region = receiver rank ∧ host.hasOutgoing rank = true ∧ AllVoted sent .allocation ∧
      15 < process.pc.position
  handle : ∀ region, process.localHandle = some region →
    region = rank ∧ process.region ≠ .unallocated
  sent_handle : ∀ region, process.sent .handles = some (.handle (some region)) →
    region = rank ∧ process.region ≠ .unallocated
  sent_name : ∀ name, process.sent .controls = some (.name (some name)) →
    process.controlName = some name
  sent_opened : ∀ value, process.sent .opened = some value →
    value = .opened process.outgoingRegion.isSome
  sent_vote : ∀ value, process.sent .allocation = some value → ∃ ok, value = .vote ok
  localRegion : ∀ region, process.owner.localRegion = some region → process.region = .allocated
  remoteRegion : ∀ region, process.owner.remoteRegion = some region →
    process.outgoingRegion = some region
  localControl : ∀ file, process.owner.localCloseControl = some file → file = .created rank
  remoteControl : ∀ file, process.owner.remoteCloseControl = some file →
    file = .created (receiver rank)
  linked : ∀ name, process.linked = some name → names name = some (.created rank)
  /-- A published name stays in use until all ranks have opened the files, or none will. -/
  published : ∀ name, process.controlName = some name →
    process.linked = some name ∨ AllEntered sent .opened ∨ AllocationFailed sent
  freed : process.region = .freed → AllEntered sent .opened ∨ AllocationFailed sent

/-- Points other than the mapping of the file. -/
theorem not_mapPeer {process : Process n} {P : ControlFile n → Prop}
    (apart : process.pc.position ≠ 14) : ∀ file, process.pc = .mapPeer file → P file := by
  intro file here
  rw [here] at apart
  exact absurd rfl apart

namespace Point

variable {sent sent' : Sent n} {rank : Fin n} {process : Process n}

theorem grown (point : Point host sent rank process) (grown : Grown sent sent') :
    Point host sent' rank process :=
  { point with
    failed := fun low high => (point.failed low high).grown grown
    voted := fun low high => (point.voted low high).grown grown
    armed := fun low high => (point.armed low high).grown grown
    destroys := fun low high => (point.destroys low high).imp (.grown grown) (.grown grown) }

/-- While the region is exported. -/
theorem of_export (low : 1 ≤ process.pc.position) (high : process.pc.position ≤ 4)
    (unnamed : process.owner.localControlName = none ∧ process.controlName = none)
    (exports : process.region ≠ .unallocated) : Point host sent rank process where
  unnamed := fun _ => unnamed
  exports := fun _ _ => exports
  failed := by omega
  voted := by omega
  connects := by omega
  peerControl := not_mapPeer (by omega)
  armed := by omega
  destroys := by omega
  signals := by omega

/-- Behind the export of the region, up to the vote on it. -/
theorem of_early (low : 5 ≤ process.pc.position) (high : process.pc.position ≤ 10) :
    Point host sent rank process where
  unnamed := by omega
  exports := by omega
  failed := by omega
  voted := by omega
  connects := by omega
  peerControl := not_mapPeer (by omega)
  armed := by omega
  destroys := by omega
  signals := by omega

theorem of_failed (low : 11 ≤ process.pc.position) (high : process.pc.position ≤ 12)
    (failed : AllocationFailed sent) : Point host sent rank process where
  unnamed := by omega
  exports := by omega
  failed := fun _ _ => failed
  voted := by omega
  connects := by omega
  peerControl := not_mapPeer (by omega)
  armed := by omega
  destroys := by omega
  signals := by omega

/-- Around the opening of the next rank's region. -/
theorem of_voted (low : 13 ≤ process.pc.position) (high : process.pc.position ≤ 20)
    (apart : process.pc.position ≤ 13 ∨ 16 ≤ process.pc.position)
    (voted : AllVoted sent .allocation) : Point host sent rank process where
  unnamed := by omega
  exports := by omega
  failed := by omega
  voted := fun _ _ => voted
  connects := by omega
  peerControl := not_mapPeer (by omega)
  armed := by omega
  destroys := by omega
  signals := by omega

/-- While the next rank's region is opened. -/
theorem of_connecting (low : 14 ≤ process.pc.position) (high : process.pc.position ≤ 15)
    (voted : AllVoted sent .allocation) (connects : host.hasOutgoing rank = true)
    (peerControl : ∀ file, process.pc = .mapPeer file → file = .created (receiver rank)) :
    Point host sent rank process where
  unnamed := by omega
  exports := by omega
  failed := by omega
  voted := fun _ _ => voted
  connects := fun _ _ => connects
  peerControl := peerControl
  armed := by omega
  destroys := by omega
  signals := by omega

/-- A rank in a collective knows what it has known in front of it. -/
theorem inside {collective : Collective} (point : Point host sent rank process)
    (at_pc : process.pc = .enter collective)
    {others : Collective → Option (Contribution n)} :
    Point host sent rank { process with pc := .inside collective, sent := others } := by
  have start : process.pc.position = collective.position := by rw [at_pc]; rfl
  have odd := collective.position_odd
  refine
    { unnamed := ?_, exports := ?_, failed := ?_, voted := ?_, connects := ?_
      peerControl := by rintro _ ⟨⟩, armed := ?_, destroys := ?_, signals := ?_ } <;>
    simp only [Pc.position]
  · omega
  · omega
  · exact fun _ _ => point.failed (by omega) (by omega)
  · exact fun _ _ => point.voted (by omega) (by omega)
  · omega
  · exact fun _ _ => { point.armed (by omega) (by omega) with }
  · omega
  · intro here
    omega

/-- Behind the mapping, as long as the owner is alive. -/
theorem of_armed (low : 21 ≤ process.pc.position) (high : process.pc.position ≤ 26)
    (voted : AllVoted sent .allocation) (armed : Armed host sent rank process) :
    Point host sent rank process where
  unnamed := by omega
  exports := by omega
  failed := by omega
  voted := fun _ _ => voted
  connects := by omega
  peerControl := not_mapPeer (by omega)
  armed := fun _ _ => armed
  destroys := by omega
  signals := by omega

/-- In the destructor, apart from the store to the control word. -/
theorem of_destroys (low : 27 ≤ process.pc.position) (apart : process.pc.position ≠ 28)
    (known : AllocationFailed sent ∨ Armed host sent rank process) :
    Point host sent rank process where
  unnamed := by omega
  exports := by omega
  failed := by omega
  voted := by omega
  connects := by omega
  peerControl := not_mapPeer (by omega)
  armed := by omega
  destroys := fun _ _ => known
  signals := by omega

/-- Before the store to the control word. -/
theorem of_signal (at_pc : process.pc = .signal)
    (known : AllocationFailed sent ∨ Armed host sent rank process)
    (closed : ∃ exporter, process.mapping = .closed exporter) : Point host sent rank process := by
  have here : process.pc.position = 28 := by rw [at_pc]; rfl
  exact
    { unnamed := by omega, exports := by omega, failed := by omega, voted := by omega
      connects := by omega, peerControl := not_mapPeer (by omega), armed := by omega
      destroys := fun _ _ => known, signals := fun _ => closed }

/-- Behind the destructor. -/
theorem of_gone (at_pc : process.pc = .gone) : Point host sent rank process := by
  have last : process.pc.position = 33 := by rw [at_pc]; rfl
  exact
    { unnamed := by omega, exports := by omega, failed := by omega, voted := by omega
      connects := by omega, peerControl := not_mapPeer (by omega), armed := by omega
      destroys := by omega, signals := by omega }

end Point

namespace RankInv

variable {sent sent' : Sent n} {names names' : ControlName → Option (ControlFile n)} {rank : Fin n}
  {process : Process n}

/-- Steps of other ranks keep the invariant of a rank. -/
theorem frame (inv : RankInv host sent names rank process) (grown : Grown sent sent')
    (kept : ∀ name, process.linked = some name → names' name = names name) :
    RankInv host sent' names' rank process :=
  { inv with
    point := inv.point.grown grown
    outgoing := fun region here =>
      have known := inv.outgoing region here
      ⟨known.1, known.2.1, known.2.2.1.grown grown, known.2.2.2⟩
    linked := fun name here => (kept name here).trans (inv.linked name here)
    published := fun name here =>
      (inv.published name here).imp id (Or.imp (.grown grown) (.grown grown))
    freed := fun here => (inv.freed here).imp (.grown grown) (.grown grown) }

theorem initial (rank : Fin n) :
    RankInv host (P2p.initial host).sent (P2p.initial host).names rank
      ((P2p.initial host).processes rank) := by
  have start : ((P2p.initial host).processes rank).pc = .allocate ∨
      ((P2p.initial host).processes rank).pc = .gone := by
    simp only [P2p.initial]
    split
    · exact .inl rfl
    · exact .inr rfl
  have outside : ((P2p.initial host).processes rank).pc.position = 0 ∨
      ((P2p.initial host).processes rank).pc.position = 33 := by
    rcases start with at_pc | at_pc <;> rw [at_pc]
    · exact .inl rfl
    · exact .inr rfl
  refine
    { point :=
        { unnamed := fun _ => ⟨rfl, rfl⟩, exports := by omega, failed := by omega
          voted := by omega, connects := by omega, peerControl := not_mapPeer (by omega)
          armed := by omega, destroys := by omega, signals := by omega }
      entered := by rintro _ ⟨⟩, exporter := rfl, outgoing := by rintro _ ⟨⟩
      handle := by rintro _ ⟨⟩, sent_handle := by rintro _ ⟨⟩, sent_name := by rintro _ ⟨⟩
      sent_opened := by rintro _ ⟨⟩, sent_vote := by rintro _ ⟨⟩, localRegion := by rintro _ ⟨⟩
      remoteRegion := by rintro _ ⟨⟩, localControl := by rintro _ ⟨⟩
      remoteControl := by rintro _ ⟨⟩, linked := ?_, published := by rintro _ ⟨⟩
      freed := by rintro ⟨⟩ }
  · intro name here
    rcases start with at_pc | at_pc <;>
      (simp only [Process.linked, at_pc] at here; cases here)

/-- `local_ok`, `all_ok` and `sequence` do not matter. -/
theorem relax (inv : RankInv host sent names rank process) (localOk allOk : Bool) (sequence : ℕ) :
    RankInv host sent names rank
      { process with localOk := localOk, allOk := allOk, sequence := sequence } :=
  { inv with point := { inv.point with armed := fun low high => { inv.point.armed low high with }
                                       destroys := fun low high =>
                                        (inv.point.destroys low high).imp id fun armed =>
                                          { armed with } } }

/-- A region that is open stays behind a rank that goes on. -/
theorem outgoing_before (inv : RankInv host sent names rank process) {position : ℕ}
    (later : process.pc.position ≤ position) {region : Fin n}
    (here : process.outgoingRegion = some region) :
    region = receiver rank ∧ host.hasOutgoing rank = true ∧ AllVoted sent .allocation ∧
      15 < position := by
  obtain ⟨peer, connects, voted, behind⟩ := inv.outgoing region here
  exact ⟨peer, connects, voted, behind.trans_le later⟩

/-- From the collectives to the destructor, `local_control_name` leads to the control file. -/
theorem named (inv : RankInv host sent names rank process) (low : 5 ≤ process.pc.position)
    (high : process.pc.position ≤ 32) {name : ControlName}
    (here : process.owner.localControlName = some name) : names name = some (.created rank) :=
  inv.linked name ((Process.linked_eq low high).trans here)

theorem published_named (inv : RankInv host sent names rank process)
    (low : 5 ≤ process.pc.position) (high : process.pc.position ≤ 32) {name : ControlName}
    (here : process.controlName = some name) :
    process.owner.localControlName = some name ∨ AllEntered sent .opened ∨
      AllocationFailed sent := by
  rw [← Process.linked_eq low high]
  exact inv.published name here

/-- The rank goes on without taking or giving back anything. -/
theorem goto (inv : RankInv host sent names rank process) {pc : Pc n}
    (low : 5 ≤ process.pc.position) (later : process.pc.position ≤ pc.position)
    (high : pc.position ≤ 32) (point : Point host sent rank (process.goto pc)) :
    RankInv host sent names rank (process.goto pc) := by
  have linked : (process.goto pc).linked = process.owner.localControlName :=
    Process.linked_eq (low.trans later) high
  exact
    { inv with
      point := point
      entered := fun collective here => (inv.entered collective here).trans_le later
      outgoing := fun _ => inv.outgoing_before later
      linked := fun _ here => inv.named low (later.trans high) (linked.symm.trans here)
      published := fun _ here =>
        (inv.published_named low (later.trans high) here).imp_left linked.trans }

end RankInv

end P2p
end NanoNccl
