import Mathlib.Algebra.BigOperators.Group.Finset.Basic
import Mathlib.Algebra.Order.BigOperators.Group.Finset
import NanoNccl.Bootstrap.Ends

/-!
# The bootstrap ends

As long as a rank is not done, some rank can move: a HELLO that is being read is on its way, and a
rank that waits for a connection gets one, because the others have connected as often as it has
counted. Every move uses up some of what is left to do, so all ranks are done in the end.
-/

namespace NanoNccl
namespace Bootstrap

open Socket StepSystem

variable {n : ℕ} {network : Network n}

/-! ### Someone can move -/

/-- All ranks wait for connections or HELLOs, or are done. -/
def Behind (state : ConnectState n) : Prop :=
  ∀ rank, (state.members rank).pc.todo = [] ∧ ∀ tcp, (state.members rank).pc.unsent tcp = []

namespace ConnectInv

variable {state : ConnectState n} {rank : Fin n}

/-- A rank in its loops can move. -/
theorem behind_or_step (inv : ConnectInv network state) :
    Behind state ∨ ∃ label, (connectStep network state label).isSome := by
  by_contra stuck
  simp only [not_or, not_exists] at stuck
  refine stuck.1 fun rank => ?_
  have immobile := stuck.2 (.move rank)
  have silent := stuck.2 (.send rank 1)
  simp only [connectStep, localStep, sendHello] at immobile silent
  cases at_pc : (state.members rank).pc with
  | loop todo =>
      cases todo with
      | nil => simp [at_pc] at immobile
      | cons turn todo =>
          simp only [at_pc] at immobile
          split at immobile <;> simp at immobile
  | write tcp hello rest todo =>
      cases rest with
      | nil => simp [at_pc] at immobile
      | cons byte rest => simp [at_pc] at silent
  | accept | read _ _ | done => exact ⟨rfl, fun _ => rfl⟩
  | failed error => exact absurd at_pc ((inv rank).unfailed error)

/-- A connection that the rank has counted and not accepted. -/
theorem exists_pending (inv : ConnectInv network state) (behind : Behind state)
    (at_pc : (state.members rank).pc = .accept)
    (more : (state.members rank).index < (state.members rank).expectedAccepts) :
    ∃ (tcp : ℕ) (link : Tcp n), state.tcps[tcp]? = some link ∧ link.server = rank ∧
      link.accepted = false := by
  by_contra none
  have own := inv rank
  have all : ∀ (tcp : ℕ) (link : Tcp n), state.tcps[tcp]? = some link → link.server = rank →
      link.accepted = true := by
    intro tcp link here server
    by_contra pending
    exact none ⟨tcp, link, here, server, by simpa using pending⟩
  have perm := inv.hellos_perm (fun other => (behind other).1) rank
  have subset : (state.tcps.filter fun link => decide (link.server = rank.val)).map Tcp.hello ⊆
      (accepted network rank (state.members rank).connections).map Connection.hello := by
    intro hello member
    obtain ⟨link, kept, rfl⟩ := List.mem_map.mp member
    obtain ⟨inside, goes⟩ := List.mem_filter.mp kept
    obtain ⟨tcp, here⟩ := List.mem_iff_getElem?.mp inside
    have server : link.server = rank := by simpa using goes
    have held : tcp ∈ (state.members rank).held :=
      (own.mem_held tcp).mpr ⟨link, here, .inr ⟨server, all tcp link here server⟩⟩
    rw [Member.held, at_pc, ConnectPc.current, List.append_nil] at held
    obtain ⟨connection, holds, rfl⟩ := List.mem_map.mp held
    obtain ⟨link', here', named⟩ := own.named connection holds
    obtain rfl : link = link' := Option.some.inj (here.symm.trans here')
    refine List.mem_map.mpr ⟨connection, List.mem_filter.mpr ⟨holds, ?_⟩, named.symm⟩
    rw [← named]
    simpa using inv.hello_mem here server
  have counts := ((perm.nodup_iff.mpr (nodup_expectedHellos rank)).subperm subset).length_le
  rw [perm.length_eq, ← own.expectedAccepts_eq (behind rank).1, List.length_map,
    ← own.index_eq] at counts
  omega

/-- The next bytes of a HELLO that is being read have been written. -/
theorem recv_isSome (inv : ConnectInv network state) (behind : Behind state) {tcp : ℕ}
    {received : List UInt8} (at_pc : (state.members rank).pc = .read tcp received)
    (short : received.length < 16) : (recvHello state rank 1).isSome := by
  obtain ⟨link, here, -, read, bound⟩ := (inv rank).reading _ _ at_pc
  have written := (inv link.client).written tcp link here rfl
  rw [(behind link.client).2 tcp, List.append_nil] at written
  have whole : link.sent.length = 16 := by rw [written, length_wireHello]
  have taken : received.length = link.taken := by
    rw [read, List.length_take, min_eq_left bound]
  have available : 0 < 1 ∧ link.taken + 1 ≤ link.sent.length ∧ received.length + 1 ≤ 16 := by
    omega
  simp only [recvHello, at_pc, here, if_pos available, Option.isSome_some]

/-- The bootstrap is not stuck before all ranks are done. -/
theorem exists_step (inv : ConnectInv network state)
    (pending : (state.members rank).pc ≠ .done) :
    ∃ label, (connectStep network state label).isSome := by
  rcases inv.behind_or_step with behind | moves
  swap
  · exact moves
  cases at_pc : (state.members rank).pc with
  | loop todo => exact ⟨.move rank, by
      obtain rfl : todo = [] := by simpa [at_pc, ConnectPc.todo] using (behind rank).1
      simp [connectStep, localStep, at_pc]⟩
  | write tcp hello rest todo => exact ⟨.move rank, by
      obtain rfl : rest = [] := by simpa [at_pc, ConnectPc.unsent] using (behind rank).2 tcp
      simp [connectStep, localStep, at_pc]⟩
  | accept =>
      by_cases more : (state.members rank).index < (state.members rank).expectedAccepts
      · obtain ⟨tcp, link, here, server, unaccepted⟩ := inv.exists_pending behind at_pc more
        exact ⟨.accept rank tcp, by
          simp [connectStep, acceptTcp, at_pc, here, more, server, unaccepted]⟩
      · exact ⟨.move rank, by simp [connectStep, localStep, at_pc, more]⟩
  | read tcp received =>
      by_cases short : received.length < 16
      · exact ⟨.recv rank 1, inv.recv_isSome behind at_pc short⟩
      · exact ⟨.move rank, by simp [connectStep, localStep, at_pc, short]⟩
  | done => exact absurd at_pc pending
  | failed error => exact absurd at_pc ((inv rank).unfailed error)

end ConnectInv

/-! ### Moves are finite -/

/-- How much a rank has left to do at most. -/
def Member.left (member : Member) : ℕ :=
  let waits := member.expectedAccepts - member.index
  match member.pc with
  | .loop todo => 40 * todo.length + 20 * waits + 2
  | .write _ _ rest todo => 40 * todo.length + 20 * waits + rest.length + 3
  | .accept => 20 * waits + 1
  | .read _ received => 20 * (waits - 1) + (16 - received.length) + 2
  | .done | .failed _ => 0

/-- What all ranks have left to do. -/
def ConnectState.left (state : ConnectState n) : ℕ := ∑ rank, (state.members rank).left

theorem left_update_lt {members : Fin n → Member} {tcps tcps' : List (Tcp n)} {rank : Fin n}
    {member : Member} (less : member.left < (members rank).left) :
    ConnectState.left ⟨Function.update members rank member, tcps'⟩ <
      ConnectState.left ⟨members, tcps⟩ := by
  refine Finset.sum_lt_sum (fun other _ => ?_) ⟨rank, Finset.mem_univ rank, ?_⟩
  · by_cases same : other = rank
    · subst same
      simpa using less.le
    · simp [Function.update_of_ne same]
  · simpa using less

section Steps

variable {state next : ConnectState n} {rank : Fin n}

theorem acceptHello_left {member : Member} {tcp : ℕ} {received : List UInt8}
    (at_pc : member.pc = .read tcp received) :
    (member.acceptHello network rank tcp received).left < member.left := by
  have before : member.left = 20 * (member.expectedAccepts - member.index - 1) +
      (16 - received.length) + 2 := by
    simp [Member.left, at_pc]
  rw [before, Member.acceptHello]
  split
  next => simp [Member.goto, Member.left]
  next =>
    split
    · split
      · simp [Member.goto, Member.left]
      · simp only [Member.left]
        omega
    · simp [Member.goto, Member.left]

theorem localStep_left (taken : localStep network state rank = some next) :
    next.left < state.left := by
  unfold localStep at taken
  cases at_pc : (state.members rank).pc with
  | loop todo =>
      cases todo with
      | nil =>
          simp only [at_pc, Option.some.injEq] at taken
          subst taken
          refine left_update_lt ?_
          simp [Member.goto, Member.left, at_pc]
      | cons turn todo =>
          simp only [at_pc] at taken
          split at taken
          next =>
            obtain rfl := Option.some.inj taken
            refine left_update_lt ?_
            simp only [Member.goto, Member.left, at_pc, length_wireHello, List.length_cons]
            omega
          next =>
            obtain rfl := Option.some.inj taken
            refine left_update_lt ?_
            simp only [Member.left, at_pc, List.length_cons]
            omega
  | write tcp hello rest todo =>
      cases rest with
      | nil =>
          simp only [at_pc, Option.some.injEq] at taken
          subst taken
          refine left_update_lt ?_
          simp [Member.left, at_pc]
      | cons byte rest => simp [at_pc] at taken
  | accept =>
      simp only [at_pc] at taken
      split at taken
      next => cases taken
      next =>
        obtain rfl := Option.some.inj taken
        refine left_update_lt ?_
        simp [Member.goto, Member.left, at_pc]
  | read tcp received =>
      simp only [at_pc] at taken
      split at taken
      next => cases taken
      next =>
        obtain rfl := Option.some.inj taken
        exact left_update_lt (acceptHello_left at_pc)
  | done => simp [at_pc] at taken
  | failed error => simp [at_pc] at taken

theorem connectStep_left {label : ConnectLabel n}
    (taken : connectStep network state label = some next) : next.left < state.left := by
  cases label with
  | move rank => exact localStep_left taken
  | send rank count =>
      simp only [connectStep, sendHello] at taken
      split at taken
      next tcp hello rest todo at_pc =>
        split at taken
        next fits =>
          obtain rfl := Option.some.inj taken
          refine left_update_lt ?_
          simp only [Member.goto, Member.left, at_pc, List.length_drop]
          omega
        next => cases taken
      all_goals cases taken
  | accept rank tcp =>
      simp only [connectStep, acceptTcp] at taken
      split at taken
      next link at_pc here =>
        split at taken
        next pending =>
          obtain rfl := Option.some.inj taken
          refine left_update_lt ?_
          simp only [Member.goto, Member.left, at_pc, List.length_nil]
          omega
        next => cases taken
      next => cases taken
  | recv rank count =>
      simp only [connectStep, recvHello] at taken
      split at taken
      next tcp received at_pc =>
        split at taken
        next => cases taken
        next link here =>
          split at taken
          next available =>
            obtain rfl := Option.some.inj taken
            refine left_update_lt ?_
            simp only [Member.goto, Member.left, at_pc, List.length_append, List.length_take,
              List.length_drop]
            omega
          next => cases taken
      all_goals cases taken

end Steps

/-- Runs are no longer than what is left to do at first. -/
theorem exec_left {labels : List (ConnectLabel n)} {initial final : ConnectState n}
    (execution : exec (connectStep network) initial labels = some final) :
    labels.length + final.left ≤ initial.left := by
  induction labels generalizing initial with
  | nil =>
      obtain rfl : initial = final := by simpa using execution
      simp
  | cons label labels ih =>
      rw [exec_cons] at execution
      obtain ⟨next, first, later⟩ := Option.bind_eq_some_iff.mp execution
      have less := connectStep_left first
      have rest := ih later
      simp only [List.length_cons]
      omega

/-- Runs that cannot be continued end with all ranks done. -/
theorem done_of_final {state : ConnectState n} (reachable : ConnectReachable network state)
    (final : ∀ label, connectStep network state label = none) (rank : Fin n) :
    (state.members rank).pc = .done := by
  by_contra pending
  obtain ⟨label, moves⟩ := reachable.inv.exists_step pending
  simp [final label] at moves

end Bootstrap
end NanoNccl
