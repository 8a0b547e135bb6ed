import Mathlib.Algebra.GroupWithZero.Nat
import NanoNccl.P2p.Links

/-!
# Teardown of exported regions

A rank frees its region only when its predecessor has told it in a collective that nothing is
mapped, when nobody has got as far as opening a region, or when its control word is set; and the
word is set behind the successful close of the one mapping there can be. Whatever becomes of the
calls, a region that may still be mapped is leaked.
-/

namespace NanoNccl
namespace P2p

open Bootstrap (TransportKind receiver incomingEdge)

variable {n : ℕ} {host : Host n} {state next : State n} {rank : Fin n}

namespace Inv

theorem initial : Inv host (P2p.initial host) where
  ranks := RankInv.initial
  links :=
    { closed := fun _ set => absurd rfl set
      cleared := by
        intro rank frees
        simp only [P2p.initial] at frees
        split at frees <;> cases frees
      mapped := by rintro _ _ ⟨⟩ }

theorem act (inv : Inv host state) (taken : act host state rank ok unlinks = some next) :
    Inv host next := by
  cases at_pc : (state.processes rank).pc with
  | allocate => exact inv.allocate at_pc taken
  | exportRegion => exact inv.exportRegion at_pc taken
  | openControl attempt => exact inv.openControl at_pc taken
  | sizeControl name => exact inv.sizeControl at_pc taken
  | mapControl name => exact inv.mapControl at_pc taken
  | enter collective => exact inv.enter at_pc taken
  | inside collective => exact inv.inside at_pc taken
  | openPeer => exact inv.openPeer at_pc taken
  | mapPeer file => exact inv.mapPeer at_pc taken
  | openRegion => exact inv.openRegion at_pc taken
  | opened => exact inv.opened at_pc taken
  | unlink => exact inv.unlinkControl at_pc taken
  | close => exact inv.close at_pc taken
  | signal => exact inv.signal at_pc taken
  | wait => exact inv.wait at_pc taken
  | reload => exact inv.reload at_pc taken
  | free senderClosed => exact inv.free at_pc taken
  | unmap => exact inv.unmap at_pc taken
  | live | gone =>
      simp only [P2p.act, at_pc] at taken
      cases taken

theorem timeOut (inv : Inv host state) (taken : timeOut state rank = some next) :
    Inv host next := by
  simp only [P2p.timeOut] at taken
  split at taken
  · next file at_pc _ =>
      split at taken
      · obtain rfl := Option.some.inj taken
        exact inv.set ((inv.ranks rank).descend (by simp [at_pc]) (by simp [at_pc]) (by simp)
          (by simp)) rfl rfl id (by rintro ⟨⟩)
      · cases taken
  · cases taken

theorem destroy (inv : Inv host state) (taken : destroy state rank = some next) :
    Inv host next := by
  simp only [P2p.destroy] at taken
  split at taken
  · next at_pc =>
      obtain rfl := Option.some.inj taken
      exact inv.set ((inv.ranks rank).destroy at_pc) rfl rfl id (by rintro ⟨⟩)
  · cases taken

theorem step (inv : Inv host state) {label : Label n}
    (taken : step host state label = some next) : Inv host next := by
  cases label with
  | act rank ok unlinks => exact inv.act taken
  | timeOut rank => exact inv.timeOut taken
  | destroy rank => exact inv.destroy taken

end Inv

theorem IsReachable.inv (reachable : IsReachable host state) : Inv host state :=
  StepSystem.Reachable.invariant (Inv host) (fun _ _ _ inv => inv.step) .initial reachable

/-! ### Leaked regions -/

/-- The owner has come to `cudaFree` without calling it, or it is past it. -/
def Process.Past (process : Process n) : Prop :=
  31 ≤ process.pc.position ∧ ¬process.CallsFree

theorem Pc.last_cases {pc : Pc n} (last : 31 ≤ pc.position) :
    (∃ senderClosed, pc = .free senderClosed) ∨ pc = .unmap ∨ pc = .gone := by
  cases pc with
  | free senderClosed => exact .inl ⟨senderClosed, rfl⟩
  | unmap => exact .inr (.inl rfl)
  | gone => exact .inr (.inr rfl)
  | enter collective | inside collective =>
      have bound := collective.position_odd
      replace last : 31 ≤ collective.position + 1 := by
        first | exact last | exact Nat.le_succ_of_le last
      omega
  | allocate | exportRegion | openControl | sizeControl | mapControl | openPeer | mapPeer
  | openRegion | opened | unlink | live | close | signal | wait | reload => simp at last

theorem Process.Past.act {ok unlinks : Bool} (past : (state.processes rank).Past)
    (taken : act host state rank ok unlinks = some next) :
    (next.processes rank).Past ∧
      (next.processes rank).region = (state.processes rank).region := by
  obtain ⟨last, kept⟩ := past
  rcases Pc.last_cases last with ⟨senderClosed, at_pc⟩ | at_pc | at_pc
  · simp only [P2p.act, at_pc] at taken
    split at taken
    · next frees =>
        obtain ⟨present, rfl⟩ := frees
        exact absurd ⟨at_pc, present⟩ kept
    · obtain rfl := Option.some.inj taken
      simp [State.set, Process.Past, Process.CallsFree, Process.goto]
  · simp only [P2p.act, at_pc] at taken
    split at taken <;> obtain rfl := Option.some.inj taken <;>
      simp [State.set, Process.Past, Process.CallsFree]
  · simp only [P2p.act, at_pc] at taken
    cases taken

theorem Process.Past.step {label : Label n} (past : (state.processes rank).Past)
    (taken : step host state label = some next) :
    (next.processes rank).Past ∧
      (next.processes rank).region = (state.processes rank).region := by
  by_cases mine : rank = label.rank
  · subst mine
    cases label with
    | act rank ok unlinks => exact past.act taken
    | timeOut rank =>
        simp only [P2p.step, timeOut] at taken
        split at taken
        · next at_pc _ => exact absurd past.1 (by simp [Label.rank, at_pc])
        · cases taken
    | destroy rank =>
        simp only [P2p.step, destroy] at taken
        split at taken
        · next at_pc => exact absurd past.1 (by simp [Label.rank, at_pc])
        · cases taken
  · obtain ⟨process, changed⟩ := step_processes taken
    rw [changed, Function.update_of_ne mine]
    exact ⟨past, rfl⟩

/-- Without the call the region stays as it is for good. -/
theorem Process.Past.region_eq {final : State n} (past : (state.processes rank).Past)
    (later : StepSystem.Reachable (P2p.step host) state final) :
    (final.processes rank).region = (state.processes rank).region := by
  have kept : (final.processes rank).Past ∧
      (final.processes rank).region = (state.processes rank).region := by
    refine StepSystem.Reachable.invariant
      (fun current => (current.processes rank).Past ∧
        (current.processes rank).region = (state.processes rank).region)
      ?_ ⟨past, rfl⟩ later
    intro current label next known taken
    have after := known.1.step taken
    exact ⟨after.1, after.2.trans known.2⟩
  exact kept.2

/-- The region of a rank stays allocated as long as its predecessor maps it: when the owner calls
`cudaFree`, the mapping has been closed or there was none, and without the call the region is
leaked. -/
theorem exported_region_kept (reachable : IsReachable host state) (rank : Fin n) :
    ((state.processes (incomingEdge rank)).mapping = .opened rank →
      (state.processes rank).region = .allocated) ∧
    ((state.processes rank).CallsFree →
      (state.processes (incomingEdge rank)).mapping = .never ∨
        (state.processes (incomingEdge rank)).mapping = .closed rank) ∧
    ∀ senderClosed, (state.processes rank).pc = .free senderClosed →
      ¬(state.processes rank).CallsFree →
        ∀ final, StepSystem.Reachable (step host) state final →
          (final.processes rank).region = (state.processes rank).region := by
  have inv := reachable.inv
  refine ⟨inv.links.mapped _ _, fun frees => inv.unmapped frees.1, ?_⟩
  intro senderClosed at_pc refuses final later
  have past : (state.processes rank).Past := ⟨by simp [at_pc], refuses⟩
  exact past.region_eq later

/-- Ranks of one host in a ring of P2P edges. -/
def p2pRing {n : ℕ} (two_le : 2 ≤ n) : Host n where
  two_le := two_le
  edgeKinds := fun _ => .p2p
  pid := fun rank => rank.val + 100
  sequence := fun _ => 0
  stale := fun _ => false

/-- Two ranks set up the ring; rank 0 is destroyed first and waits until rank 1 is, too. -/
def teardownRun (n : ℕ) [NeZero n] : List (Label n) :=
  (List.replicate 22 [.act 0 true true, .act 1 true true]).flatten ++
    [.destroy 0, .act 0 true true, .act 0 true true, .destroy 1, .act 1 true true,
      .act 1 true true, .act 0 true true, .act 0 true true]

theorem exported_region_kept_ring :
    ∃ state, IsReachable (p2pRing (le_refl 2)) state ∧ (state.processes 0).CallsFree ∧
      ((state.processes (incomingEdge 0)).mapping = .never ∨
        (state.processes (incomingEdge 0)).mapping = .closed 0) := by
  have run : ((StepSystem.exec (step (p2pRing (le_refl 2))) (initial (p2pRing (le_refl 2)))
      (teardownRun 2)).map fun state =>
        decide ((state.processes 0).pc = .free true) &&
          (state.processes 0).owner.localRegion.isSome) = some true := by
    decide +kernel
  obtain ⟨state, execution, frees⟩ := Option.map_eq_some_iff.mp run
  have reachable : IsReachable (p2pRing (le_refl 2)) state := ⟨teardownRun 2, execution⟩
  have calls : (state.processes 0).CallsFree := by simpa [Process.CallsFree] using frees
  exact ⟨state, reachable, calls, (exported_region_kept reachable 0).2.1 calls⟩

end P2p
end NanoNccl
