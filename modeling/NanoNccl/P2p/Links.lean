import NanoNccl.P2p.OwnershipStep

/-!
# Words, mappings and regions

The control word of a rank is set only behind the successful close of the mapping of its region, and
a region that is mapped is allocated. Together with the invariants of the ranks this is kept by
every action.
-/

namespace NanoNccl
namespace P2p

open Bootstrap (TransportKind receiver incomingEdge receiver_incomingEdge incomingEdge_receiver)

variable {n : ℕ} {host : Host n} {state next : State n} {rank : Fin n} {process : Process n}

/-- What the control words and the mappings say of the regions. -/
structure Links (state : State n) : Prop where
  closed : ∀ rank, state.words (.created (receiver rank)) ≠ 0 →
    (state.processes rank).mapping = .closed (receiver rank)
  cleared : ∀ rank, (state.processes rank).pc = .free true →
    (state.processes rank).owner.waitForClose = false ∨ state.words (.created rank) ≠ 0
  mapped : ∀ rank exporter, (state.processes rank).mapping = .opened exporter →
    (state.processes exporter).region = .allocated

/-- What holds in every reachable state. -/
structure Inv (host : Host n) (state : State n) : Prop where
  ranks : ∀ rank, RankInv host state.sent state.names rank (state.processes rank)
  links : Links state

namespace RankInv

variable {sent : Sent n} {names : ControlName → Option (ControlFile n)}

/-- The only region that a rank maps is the one of the next rank. -/
theorem mapping_cases (inv : RankInv host sent names rank process) :
    process.mapping = .never ∨
      (process.mapping = .opened (receiver rank) ∨ process.mapping = .closed (receiver rank)) ∧
        process.outgoingRegion = some (receiver rank) := by
  have exporter := inv.exporter
  cases at_mapping : process.mapping with
  | never => exact .inl rfl
  | opened region =>
      rw [at_mapping] at exporter
      obtain rfl := (inv.outgoing region exporter.symm).1
      exact .inr ⟨.inl rfl, exporter.symm⟩
  | closed region =>
      rw [at_mapping] at exporter
      obtain rfl := (inv.outgoing region exporter.symm).1
      exact .inr ⟨.inr rfl, exporter.symm⟩

end RankInv

namespace Inv

/-- A rank that is about to free its region is not mapped any more. -/
theorem unmapped (inv : Inv host state) (frees : (state.processes rank).pc = .free true) :
    (state.processes (incomingEdge rank)).mapping = .never ∨
      (state.processes (incomingEdge rank)).mapping = .closed rank := by
  have peer := inv.ranks (incomingEdge rank)
  rcases peer.mapping_cases with never | ⟨-, outgoing⟩
  · exact .inl never
  · obtain ⟨-, connects, voted, -⟩ := peer.outgoing _ outgoing
    rcases (inv.ranks rank).point.destroys (by simp [frees]) (by simp [frees]) with failed | armed
    · exact absurd failed (not_failed_of_voted voted)
    · have incoming : host.hasIncoming rank = true := connects
      obtain ⟨value, told⟩ := Option.isSome_iff_exists.mp (armed.entered (incomingEdge rank))
      have opened : value = .opened true := by
        rw [peer.sent_opened value told, outgoing, Option.isSome_some]
      have waits := armed.waits incoming (told.trans (congrArg some opened))
      rcases inv.links.cleared rank frees with waitless | set
      · rw [waits] at waitless
        cases waitless
      · have closed := inv.links.closed (incomingEdge rank)
        rw [receiver_incomingEdge] at closed
        exact .inr (closed set)

theorem not_opened (inv : Inv host state) (frees : (state.processes rank).pc = .free true)
    (other : Fin n) : (state.processes other).mapping ≠ .opened rank := by
  intro opened
  rcases (inv.ranks other).mapping_cases with never | ⟨mapped | closed, -⟩
  · rw [opened] at never
    cases never
  · rw [opened] at mapped
    obtain rfl : rank = receiver other := Mapping.opened.inj mapped
    have unmapped := inv.unmapped frees
    rw [incomingEdge_receiver, opened] at unmapped
    rcases unmapped with ⟨⟨⟩⟩ | ⟨⟨⟩⟩
  · rw [opened] at closed
    cases closed

/-! ### Steps of one rank -/

/-- The invariants of all ranks when one of them changes. -/
theorem ranks_update (inv : Inv host state)
    (changed : next.processes = Function.update state.processes rank process)
    (grown : ∀ collective value, (state.processes rank).sent collective = some value →
      process.sent collective = some value)
    (mine : RankInv host state.sent next.names rank process)
    (kept : ∀ other name, other ≠ rank → state.names name = some (.created other) →
      next.names name = state.names name) (other : Fin n) :
    RankInv host next.sent next.names other (next.processes other) := by
  have more : Grown state.sent next.sent := by
    intro teller collective value here
    rw [State.sent, changed]
    by_cases same : teller = rank
    · subst same
      rw [Function.update_self]
      exact grown collective value here
    · rw [Function.update_of_ne same]
      exact here
  rw [changed]
  by_cases same : other = rank
  · subst same
    rw [Function.update_self]
    exact mine.frame more fun _ _ => rfl
  · rw [Function.update_of_ne same]
    exact (inv.ranks other).frame more fun name here =>
      kept other name same ((inv.ranks other).linked name here)

end Inv

/-- A step of one rank that leaves the words alone. -/
theorem Links.update (links : Links state)
    (changed : next.processes = Function.update state.processes rank process)
    (words : next.words = state.words)
    (closed : state.words (.created (receiver rank)) ≠ 0 →
      process.mapping = .closed (receiver rank))
    (opened : ∀ exporter, exporter ≠ rank → process.mapping = .opened exporter →
      (state.processes exporter).region = .allocated)
    (mapped : ∀ other, (next.processes other).mapping = .opened rank → process.region = .allocated)
    (cleared : process.pc = .free true →
      process.owner.waitForClose = false ∨ state.words (.created rank) ≠ 0) : Links next := by
  constructor
  · intro other set
    rw [words] at set
    rw [changed]
    by_cases same : other = rank
    · subst same
      rw [Function.update_self]
      exact closed set
    · rw [Function.update_of_ne same]
      exact links.closed other set
  · intro other frees
    rw [changed] at frees ⊢
    rw [words]
    by_cases same : other = rank
    · subst same
      rw [Function.update_self] at frees ⊢
      exact cleared frees
    · rw [Function.update_of_ne same] at frees ⊢
      exact links.cleared other frees
  · intro other exporter there
    by_cases own : exporter = rank
    · subst own
      rw [changed, Function.update_self]
      exact mapped other there
    · rw [changed] at there ⊢
      rw [Function.update_of_ne own]
      by_cases same : other = rank
      · subst same
        rw [Function.update_self] at there
        exact opened exporter own there
      · rw [Function.update_of_ne same] at there
        exact links.mapped other exporter there

/-- The mappings when one rank keeps its own. -/
theorem mapping_of_update (changed : next.processes = Function.update state.processes rank process)
    (mapping : process.mapping = (state.processes rank).mapping) (other : Fin n) :
    (next.processes other).mapping = (state.processes other).mapping := by
  rw [changed]
  by_cases same : other = rank
  · rw [same, Function.update_self, mapping]
  · rw [Function.update_of_ne same]

/-- A step of one rank that leaves the words and the mappings alone. -/
theorem Links.keep (links : Links state)
    (changed : next.processes = Function.update state.processes rank process)
    (words : next.words = state.words)
    (mapping : process.mapping = (state.processes rank).mapping)
    (region : ∀ other, (state.processes other).mapping = .opened rank → process.region = .allocated)
    (cleared : process.pc = .free true →
      process.owner.waitForClose = false ∨ state.words (.created rank) ≠ 0) : Links next := by
  refine links.update changed words ?_ ?_ ?_ cleared
  · intro set
    exact mapping.trans (links.closed rank set)
  · intro exporter _ opened
    exact links.mapped rank exporter (mapping.symm.trans opened)
  · intro other opened
    rw [mapping_of_update changed mapping] at opened
    exact region other opened

theorem Process.leave_kept (process : Process n) (rank : Fin n) (sent : Sent n)
    (collective : Collective) :
    (process.leave host rank sent collective).sent = process.sent ∧
      (process.leave host rank sent collective).mapping = process.mapping ∧
      (process.leave host rank sent collective).region = process.region ∧
      (process.leave host rank sent collective).pc ≠ .free true := by
  cases collective with
  | allocation =>
      simp only [Process.leave]
      split <;> exact ⟨rfl, rfl, rfl, by rintro ⟨⟩⟩
  | handles | controls | allocationErrors | mapping | opened | mappingErrors | barrier =>
      exact ⟨rfl, rfl, rfl, by rintro ⟨⟩⟩

namespace Inv

/-- A step that changes neither the words nor what the rank has mapped or told. -/
theorem update (inv : Inv host state)
    (changed : next.processes = Function.update state.processes rank process)
    (words : next.words = state.words)
    (mine : RankInv host state.sent next.names rank process)
    (kept : ∀ other name, other ≠ rank → state.names name = some (.created other) →
      next.names name = state.names name)
    (sent : process.sent = (state.processes rank).sent)
    (mapping : process.mapping = (state.processes rank).mapping)
    (region : (state.processes rank).region = .allocated → process.region = .allocated)
    (cleared : process.pc = .free true →
      process.owner.waitForClose = false ∨ state.words (.created rank) ≠ 0) : Inv host next where
  ranks := inv.ranks_update changed (fun _ _ here => sent ▸ here) mine kept
  links := inv.links.keep changed words mapping
    (fun other opened => region (inv.links.mapped other rank opened)) cleared

/-- A step that concerns only the rank. -/
theorem set (inv : Inv host state) (mine : RankInv host state.sent state.names rank process)
    (sent : process.sent = (state.processes rank).sent)
    (mapping : process.mapping = (state.processes rank).mapping)
    (region : (state.processes rank).region = .allocated → process.region = .allocated)
    (cleared : process.pc = .free true →
      process.owner.waitForClose = false ∨ state.words (.created rank) ≠ 0) :
    Inv host (state.set rank process) :=
  inv.update rfl rfl mine (fun _ _ _ _ => rfl) sent mapping region cleared

/-- The rank removes the name of its control file. -/
theorem unlink (inv : Inv host state) {name : ControlName}
    (mine : ∀ names, RankInv host state.sent names rank process)
    (linked : (state.processes rank).linked = some name) (unlinks : Bool)
    (sent : process.sent = (state.processes rank).sent)
    (mapping : process.mapping = (state.processes rank).mapping)
    (region : process.region = (state.processes rank).region)
    (cleared : process.pc ≠ .free true) :
    Inv host ((state.set rank process).unlink name unlinks) := by
  refine inv.update (by simp [State.set]) (by simp [State.set]) (mine _) ?_ sent mapping
    (fun here => region.trans here) (fun here => absurd here cleared)
  intro other found apart here
  refine State.names_unlink_of_ne _ ?_ _
  rintro rfl
  rw [(inv.ranks rank).linked found linked] at here
  exact apart (ControlFile.created.inj (Option.some.inj here)).symm

variable {ok unlinks : Bool}

theorem allocate (inv : Inv host state) (at_pc : (state.processes rank).pc = .allocate)
    (taken : act host state rank ok unlinks = some next) : Inv host next := by
  have here := inv.ranks rank
  simp only [act, at_pc] at taken
  split at taken
  · split at taken
    · obtain rfl := Option.some.inj taken
      exact inv.set (here.allocate at_pc) rfl rfl (fun _ => rfl) (by rintro ⟨⟩)
    · obtain rfl := Option.some.inj taken
      exact inv.set ((here.enterHandles (by simp [at_pc])).relax _ _ _) rfl rfl id (by rintro ⟨⟩)
  · obtain rfl := Option.some.inj taken
    exact inv.set (here.enterHandles (by simp [at_pc])) rfl rfl id (by rintro ⟨⟩)

theorem exportRegion (inv : Inv host state) (at_pc : (state.processes rank).pc = .exportRegion)
    (taken : act host state rank ok unlinks = some next) : Inv host next := by
  have here := inv.ranks rank
  simp only [act, at_pc] at taken
  split at taken
  · obtain rfl := Option.some.inj taken
    exact inv.set (here.exportRegion at_pc) rfl rfl id (by rintro ⟨⟩)
  · obtain rfl := Option.some.inj taken
    exact inv.set ((here.enterHandles (by simp [at_pc])).relax _ _ _) rfl rfl id (by rintro ⟨⟩)

theorem openControl (inv : Inv host state) {attempt : ℕ}
    (at_pc : (state.processes rank).pc = .openControl attempt)
    (taken : act host state rank ok unlinks = some next) : Inv host next := by
  have here := inv.ranks rank
  have failed : ∀ sequence, RankInv host state.sent state.names rank
      { (state.processes rank).fail .handles with sequence := sequence } := fun sequence =>
    (here.enterHandles (by simp [at_pc])).relax _ _ sequence
  simp only [act, at_pc] at taken
  split at taken
  · split at taken
    · split at taken
      · next fresh =>
          obtain rfl := Option.some.inj taken
          refine inv.update rfl rfl (here.openControl at_pc (Function.update_self _ _ _) _) ?_ rfl
            rfl id (by rintro ⟨⟩)
          intro other name _ found
          refine Function.update_of_ne ?_ _ _
          rintro rfl
          rw [fresh] at found
          cases found
      · obtain rfl := Option.some.inj taken
        exact inv.set (here.retry at_pc _) rfl rfl id (by rintro ⟨⟩)
    · obtain rfl := Option.some.inj taken
      exact inv.set (failed _) rfl rfl id (by rintro ⟨⟩)
  · obtain rfl := Option.some.inj taken
    exact inv.set (failed _) rfl rfl id (by rintro ⟨⟩)

theorem sizeControl (inv : Inv host state) {name : ControlName}
    (at_pc : (state.processes rank).pc = .sizeControl name)
    (taken : act host state rank ok unlinks = some next) : Inv host next := by
  have here := inv.ranks rank
  have linked : (state.processes rank).linked = some name := by rw [Process.linked, at_pc]
  simp only [act, at_pc] at taken
  split at taken
  · obtain rfl := Option.some.inj taken
    exact inv.set (here.sizeControl at_pc) rfl rfl id (by rintro ⟨⟩)
  · obtain rfl := Option.some.inj taken
    exact inv.unlink (fun _ => (here.enterHandles (by simp [at_pc])).relax _ _ _) linked unlinks
      rfl rfl rfl (by rintro ⟨⟩)

theorem mapControl (inv : Inv host state) {name : ControlName}
    (at_pc : (state.processes rank).pc = .mapControl name)
    (taken : act host state rank ok unlinks = some next) : Inv host next := by
  have here := inv.ranks rank
  have linked : (state.processes rank).linked = some name := by rw [Process.linked, at_pc]
  simp only [act, at_pc] at taken
  split at taken
  · obtain rfl := Option.some.inj taken
    have mapped : Inv host (state.set rank _) :=
      inv.set (here.mapControl at_pc) rfl rfl id (by rintro ⟨⟩)
    refine ⟨mapped.ranks, ?_, ?_, mapped.links.mapped⟩
    · intro other set
      refine mapped.links.closed other fun unset => set ?_
      by_cases same : receiver other = rank
      · rw [same]
        exact Function.update_self _ _ _
      · exact
          (Function.update_of_ne (fun file => same (ControlFile.created.inj file)) _ _).trans unset
    · intro other frees
      have apart : other ≠ rank := by
        rintro rfl
        simp [State.set] at frees
      refine (mapped.links.cleared other frees).imp_right fun set unset => set ?_
      have kept := Function.update_of_ne (fun file => apart (ControlFile.created.inj file)) 0
        state.words
      exact kept.symm.trans unset
  · obtain rfl := Option.some.inj taken
    exact inv.unlink (fun _ => (here.enterHandles (by simp [at_pc])).relax _ _ _) linked unlinks
      rfl rfl rfl (by rintro ⟨⟩)

theorem enter (inv : Inv host state) {collective : Collective}
    (at_pc : (state.processes rank).pc = .enter collective)
    (taken : act host state rank ok unlinks = some next) : Inv host next := by
  have here := inv.ranks rank
  simp only [act, at_pc] at taken
  obtain rfl := Option.some.inj taken
  refine ⟨inv.ranks_update rfl ?_ (here.enter at_pc) fun _ _ _ _ => rfl,
    inv.links.keep rfl rfl rfl (fun other => inv.links.mapped other rank) (by rintro ⟨⟩)⟩
  intro other value told
  have apart : other ≠ collective := by
    rintro rfl
    rw [here.not_sent (by simp [at_pc])] at told
    cases told
  exact (Function.update_of_ne apart _ _).trans told

theorem inside (inv : Inv host state) {collective : Collective}
    (at_pc : (state.processes rank).pc = .inside collective)
    (taken : act host state rank ok unlinks = some next) : Inv host next := by
  simp only [act, at_pc] at taken
  split at taken
  · next entered =>
      obtain rfl := Option.some.inj taken
      obtain ⟨sent, mapping, region, pc⟩ :=
        (state.processes rank).leave_kept rank state.sent collective
      exact inv.set ((inv.ranks rank).leave at_pc entered fun other => (inv.ranks other).sent_vote)
        sent mapping (fun before => region.trans before) (fun frees => absurd frees pc)
  · cases taken

/-- As long as a rank opens the next region, no other rank gives anything up. -/
theorem unsettled (inv : Inv host state) (rank : Fin n)
    (low : 13 ≤ (state.processes rank).pc.position)
    (high : (state.processes rank).pc.position ≤ 19) :
    ¬(AllEntered state.sent .opened ∨ AllocationFailed state.sent) := by
  have here := inv.ranks rank
  rintro (entered | failed)
  · have silent : state.sent rank .opened = none := here.not_sent high
    have told := entered rank
    rw [silent] at told
    cases told
  · exact not_failed_of_voted (here.point.voted low (by omega)) failed

/-- The name that the next rank has published leads to its control file. -/
theorem names_receiver (inv : Inv host state) {name : ControlName}
    (at_pc : (state.processes rank).pc = .openPeer)
    (told : state.sent (receiver rank) .controls = some (.name (some name))) :
    state.names name = some (.created (receiver rank)) := by
  have peer := inv.ranks (receiver rank)
  rcases peer.published name (peer.sent_name name told) with linked | settled
  · exact peer.linked name linked
  · exact absurd settled (inv.unsettled rank (by simp [at_pc]) (by simp [at_pc]))

theorem openPeer (inv : Inv host state) (at_pc : (state.processes rank).pc = .openPeer)
    (taken : act host state rank ok unlinks = some next) : Inv host next := by
  have here := inv.ranks rank
  have past : RankInv host state.sent state.names rank
      ((state.processes rank).goto (.enter .mapping)) :=
    here.enterMapping (by simp [at_pc]) (by simp [at_pc])
  simp only [act, at_pc] at taken
  split at taken
  · next connects =>
      split at taken
      · next name told =>
          split at taken
          · next file found =>
              rw [inv.names_receiver at_pc told] at found
              obtain rfl := Option.some.inj found
              obtain rfl := Option.some.inj taken
              exact inv.set (here.openPeer at_pc connects) rfl rfl id (by rintro ⟨⟩)
          · obtain rfl := Option.some.inj taken
            exact inv.set (past.relax _ _ _) rfl rfl id (by rintro ⟨⟩)
      · obtain rfl := Option.some.inj taken
        exact inv.set (past.relax _ _ _) rfl rfl id (by rintro ⟨⟩)
  · obtain rfl := Option.some.inj taken
    exact inv.set past rfl rfl id (by rintro ⟨⟩)

theorem mapPeer (inv : Inv host state) {file : ControlFile n}
    (at_pc : (state.processes rank).pc = .mapPeer file)
    (taken : act host state rank ok unlinks = some next) : Inv host next := by
  have here := inv.ranks rank
  simp only [act, at_pc] at taken
  split at taken
  · obtain rfl := Option.some.inj taken
    exact inv.set (here.mapPeer at_pc) rfl rfl id (by rintro ⟨⟩)
  · obtain rfl := Option.some.inj taken
    exact inv.set ((here.enterMapping (by simp [at_pc]) (by simp [at_pc])).relax _ _ _) rfl rfl id
      (by rintro ⟨⟩)

/-- The region of the next rank cannot be freed before this rank has tried to open it. -/
theorem region_receiver (inv : Inv host state) {exporter : Fin n}
    (at_pc : (state.processes rank).pc = .openRegion)
    (told : state.sent (receiver rank) .handles = some (.handle (some exporter))) :
    exporter = receiver rank ∧ (state.processes (receiver rank)).region = .allocated := by
  have peer := inv.ranks (receiver rank)
  obtain ⟨rfl, allocated⟩ := peer.sent_handle exporter told
  refine ⟨rfl, ?_⟩
  cases region : (state.processes (receiver rank)).region with
  | unallocated => exact absurd region allocated
  | allocated => rfl
  | freed =>
      exact absurd (peer.freed region) (inv.unsettled rank (by simp [at_pc]) (by simp [at_pc]))

theorem openRegion (inv : Inv host state) (at_pc : (state.processes rank).pc = .openRegion)
    (taken : act host state rank ok unlinks = some next) : Inv host next := by
  have here := inv.ranks rank
  simp only [act, at_pc] at taken
  split at taken
  · next exporter told =>
      obtain ⟨rfl, allocated⟩ := inv.region_receiver at_pc told
      obtain rfl := Option.some.inj taken
      refine ⟨inv.ranks_update rfl (fun _ _ there => there) (here.openRegion at_pc)
        fun _ _ _ _ => rfl, inv.links.update rfl rfl ?_ ?_ ?_ (by rintro ⟨⟩)⟩
      · intro set
        have none_open := here.outgoing_eq_none (by simp [at_pc])
        rw [← here.exporter, inv.links.closed rank set] at none_open
        cases none_open
      · rintro exporter - ⟨⟩
        exact allocated
      · intro other there
        by_cases same : other = rank
        · subst same
          have own : receiver other = other := by simpa [State.set] using there
          rw [own] at allocated
          exact allocated
        · exact inv.links.mapped other rank (by simpa [State.set, same] using there)
  · obtain rfl := Option.some.inj taken
    exact inv.set ((here.enterMapping (by simp [at_pc]) (by simp [at_pc])).relax _ _ _) rfl rfl id
      (by rintro ⟨⟩)

theorem opened (inv : Inv host state) (at_pc : (state.processes rank).pc = .opened)
    (taken : act host state rank ok unlinks = some next) : Inv host next := by
  have past := (inv.ranks rank).enterMapping (by simp [at_pc]) (by simp [at_pc])
  simp only [act, at_pc] at taken
  split at taken
  · obtain rfl := Option.some.inj taken
    exact inv.set past rfl rfl id (by rintro ⟨⟩)
  · obtain rfl := Option.some.inj taken
    exact inv.set (past.relax _ _ _) rfl rfl id (by rintro ⟨⟩)

theorem unlinkControl (inv : Inv host state) (at_pc : (state.processes rank).pc = .unlink)
    (taken : act host state rank ok unlinks = some next) : Inv host next := by
  have here := inv.ranks rank
  simp only [act, at_pc] at taken
  split at taken
  · obtain rfl := Option.some.inj taken
    exact inv.set (here.live at_pc) rfl rfl id (by rintro ⟨⟩)
  · next name named =>
      obtain rfl := Option.some.inj taken
      exact inv.unlink (fun _ => here.unlink at_pc) (by rw [Process.linked, at_pc]; exact named)
        unlinks rfl rfl rfl (by rintro ⟨⟩)

/-! ### The destructor -/

theorem close (inv : Inv host state) (at_pc : (state.processes rank).pc = .close)
    (taken : act host state rank ok unlinks = some next) : Inv host next := by
  have here := inv.ranks rank
  simp only [act, at_pc] at taken
  split at taken
  · obtain rfl := Option.some.inj taken
    exact inv.set (here.descend (by simp [at_pc]) (by simp [at_pc]) (by simp) (by simp)) rfl rfl id
      (by rintro ⟨⟩)
  · next exporter there =>
      have outgoing := here.remoteRegion exporter there
      obtain rfl := (here.outgoing exporter outgoing).1
      split at taken
      · obtain rfl := Option.some.inj taken
        refine ⟨inv.ranks_update rfl (fun _ _ there => there)
          (here.close at_pc ?_ outgoing.symm) fun _ _ _ _ => rfl,
          inv.links.update rfl rfl (fun _ => rfl) (by rintro _ - ⟨⟩) ?_ ?_⟩
        · split
          · exact .inr ⟨rfl, _, rfl⟩
          · exact .inl rfl
        · intro other opened
          by_cases same : other = rank
          · subst same
            simp [State.set] at opened
          · exact inv.links.mapped other rank (by simpa [State.set, same] using opened)
        · intro frees
          split at frees <;> cases frees
      · obtain rfl := Option.some.inj taken
        exact inv.set (here.close at_pc (.inl rfl) here.exporter) rfl rfl id (by rintro ⟨⟩)

theorem signal (inv : Inv host state) (at_pc : (state.processes rank).pc = .signal)
    (taken : act host state rank ok unlinks = some next) : Inv host next := by
  have here := inv.ranks rank
  have waits : Inv host (state.set rank ((state.processes rank).goto .wait)) :=
    inv.set (here.descend (by simp [at_pc]) (by simp [at_pc]) (by simp) (by simp)) rfl rfl id
      (by rintro ⟨⟩)
  simp only [act, at_pc] at taken
  split at taken
  · obtain rfl := Option.some.inj taken
    exact waits
  · next file remote =>
      obtain rfl := here.remoteControl file remote
      obtain rfl := Option.some.inj taken
      refine ⟨waits.ranks, ?_, ?_, waits.links.mapped⟩
      · intro other set
        by_cases same : receiver other = receiver rank
        · obtain rfl : other = rank := by
            rw [← incomingEdge_receiver other, same, incomingEdge_receiver]
          obtain ⟨exporter, closed⟩ := here.point.signals (by simp [at_pc])
          have exported := here.exporter
          rw [closed] at exported
          obtain rfl := (here.outgoing exporter exported.symm).1
          simpa [State.set, Process.goto] using closed
        · refine waits.links.closed other ?_
          simpa [State.set, Function.update_of_ne, same] using set
      · intro other frees
        refine (waits.links.cleared other frees).imp_right fun set => ?_
        by_cases same : other = receiver rank
        · simp [same]
        · simpa [State.set, Function.update_of_ne, same] using set

theorem wait (inv : Inv host state) (at_pc : (state.processes rank).pc = .wait)
    (taken : act host state rank ok unlinks = some next) : Inv host next := by
  have here := inv.ranks rank
  have past : ∀ pc : Pc n, 30 ≤ pc.position → pc.position ≤ 32 →
      RankInv host state.sent state.names rank ((state.processes rank).goto pc) := by
    intro pc low high
    exact here.descend (by simp [at_pc]) (by rw [at_pc]; exact (by simp : 29 ≤ 30).trans low)
      (by omega) high
  simp only [act, at_pc] at taken
  split at taken
  · split at taken
    · obtain rfl := Option.some.inj taken
      exact inv.set (past _ (by simp) (by simp)) rfl rfl id (by rintro ⟨⟩)
    · split at taken
      · cases taken
      · obtain rfl := Option.some.inj taken
        exact inv.set (past _ (by simp) (by simp)) rfl rfl id (by rintro ⟨⟩)
  · next waitless =>
      obtain rfl := Option.some.inj taken
      exact inv.set (past _ (by simp) (by simp)) rfl rfl id
        (fun _ => .inl (Bool.eq_false_iff.mpr waitless))

theorem reload (inv : Inv host state) (at_pc : (state.processes rank).pc = .reload)
    (taken : act host state rank ok unlinks = some next) : Inv host next := by
  have here := inv.ranks rank
  have past : ∀ senderClosed, RankInv host state.sent state.names rank
      ((state.processes rank).goto (.free senderClosed)) := fun _ =>
    here.descend (by simp [at_pc]) (by simp [at_pc]) (by simp) (by simp)
  simp only [act, at_pc] at taken
  split at taken
  · obtain rfl := Option.some.inj taken
    exact inv.set (past _) rfl rfl id (by rintro ⟨⟩)
  · next file there =>
      obtain rfl := here.localControl file there
      obtain rfl := Option.some.inj taken
      refine inv.set (past _) rfl rfl id fun frees => .inr ?_
      simpa using frees

theorem free (inv : Inv host state) {senderClosed : Bool}
    (at_pc : (state.processes rank).pc = .free senderClosed)
    (taken : act host state rank ok unlinks = some next) : Inv host next := by
  have here := inv.ranks rank
  simp only [act, at_pc] at taken
  split at taken
  · next frees =>
      obtain ⟨-, rfl⟩ := frees
      obtain rfl := Option.some.inj taken
      refine ⟨inv.ranks_update rfl (fun _ _ there => there) (here.free at_pc ?_)
        fun _ _ _ _ => rfl, inv.links.keep rfl rfl rfl ?_ (by rintro ⟨⟩)⟩
      · split
        · exact .inl rfl
        · exact .inr rfl
      · intro other opened
        exact absurd opened (inv.not_opened at_pc other)
  · obtain rfl := Option.some.inj taken
    exact inv.set (here.descend (by simp [at_pc]) (by simp [at_pc]) (by simp) (by simp)) rfl rfl id
      (by rintro ⟨⟩)

theorem unmap (inv : Inv host state) (at_pc : (state.processes rank).pc = .unmap)
    (taken : act host state rank ok unlinks = some next) : Inv host next := by
  have here := inv.ranks rank
  simp only [act, at_pc] at taken
  split at taken
  · obtain rfl := Option.some.inj taken
    exact inv.set (here.unmap at_pc) rfl rfl id (by rintro ⟨⟩)
  · next name named =>
      obtain rfl := Option.some.inj taken
      exact inv.unlink (fun _ => here.unmap at_pc) (by rw [Process.linked, at_pc]; exact named)
        unlinks rfl rfl rfl (by rintro ⟨⟩)

end Inv

end P2p
end NanoNccl
