import Mathlib.Data.List.Nodup
import Mathlib.Data.List.Perm.Subperm
import NanoNccl.Bootstrap.Connect

/-!
# Every edge gets its connections

The loops of the two ranks of an edge run over the same HELLOs, one connecting and the other one
counting. A rank therefore accepts exactly the connections it has counted, each with a HELLO it
expects and has not seen before, and both ranks of an edge end up with the two ends of the same
connection for each of its channels.
-/

namespace NanoNccl
namespace Bootstrap

open Socket StepSystem

variable {n : ℕ} {network : Network n}

/-! ### HELLOs and turns -/

theorem processForGlobalRank_replicate {globalRank offset : ℕ} (after : offset ≤ globalRank)
    (count process : ℕ) (before : globalRank < offset + count) :
    processForGlobalRank globalRank (List.replicate count 1) process offset =
      some (process + (globalRank - offset)) := by
  induction count generalizing process offset with
  | zero => omega
  | succ count ih =>
      rw [List.replicate_succ, processForGlobalRank]
      split_ifs with here
      · have same : globalRank = offset := by omega
        simp [same]
      · rw [ih (by omega) (process + 1) (by omega)]
        congr 1
        omega

/-- Processes and ranks have the same numbers. -/
theorem processOf_eq {globalRank : ℕ} (inside : globalRank < n) :
    processOf n globalRank = globalRank := by
  rw [processOf, processForGlobalRank_replicate (Nat.zero_le _) n 0 (by omega), Option.getD_some]
  omega

theorem helloOf_inj {edge edge' : Fin n} {channel channel' : ℕ} :
    helloOf edge channel = helloOf edge' channel' ↔ edge = edge' ∧ channel = channel' := by
  constructor
  · intro same
    simp only [helloOf, SocketHello.mk.injEq] at same
    refine ⟨Fin.ext ?_, ?_⟩
    · exact_mod_cast same.1
    · exact_mod_cast same.2.2
  · rintro ⟨rfl, rfl⟩
    rfl

/-- Edges that need connections, and their channels. -/
structure Wanted (network : Network n) (edge : Fin n) (channel : ℕ) : Prop where
  bootstraps : network.Bootstraps edge
  channel_lt : channel < network.kChannels

/-- A turn concerns an edge of the rank and the rank at its other end. -/
theorem mem_turns {rank : Fin n} {turn : Turn} :
    turn ∈ turns network rank ↔ ∃ edge channel, Wanted network edge channel ∧
      turn.hello = helloOf edge channel ∧
      (edge = rank ∧ turn.remote = receiver edge ∨ receiver edge = rank ∧ turn.remote = edge) := by
  have apart := receiver_ne network.two_le
  have process_edge : ∀ edge : Fin n, processOf n edge = edge := fun edge => processOf_eq edge.isLt
  simp only [turns, List.mem_flatMap, List.mem_finRange, true_and, edgeTurns, process_edge]
  constructor
  · rintro ⟨edge, member⟩
    split_ifs at member with concerns source
    · obtain ⟨channel, inside, rfl⟩ := List.mem_map.mp member
      exact ⟨edge, channel, ⟨concerns.1, List.mem_range.mp inside⟩, rfl,
        .inl ⟨Fin.ext source, rfl⟩⟩
    · obtain ⟨channel, inside, rfl⟩ := List.mem_map.mp member
      exact ⟨edge, channel, ⟨concerns.1, List.mem_range.mp inside⟩, rfl,
        .inr ⟨Fin.ext (concerns.2.resolve_left source), rfl⟩⟩
    · cases member
  · rintro ⟨edge, channel, wanted, hello, ends⟩
    refine ⟨edge, ?_⟩
    obtain ⟨remote, _⟩ := turn
    dsimp only at hello ends
    subst hello
    rcases ends with ⟨rfl, rfl⟩ | ⟨rfl, rfl⟩
    · simpa [wanted.bootstraps] using ⟨channel, wanted.channel_lt, rfl⟩
    · have other : edge.val ≠ (receiver edge).val := fun same => apart edge (Fin.ext same.symm)
      simpa [wanted.bootstraps, other] using ⟨channel, wanted.channel_lt, rfl⟩

/-- No HELLO occurs in two turns of a rank. -/
theorem nodup_turns (network : Network n) (rank : Fin n) :
    ((turns network rank).map Turn.hello).Nodup := by
  rw [turns, List.map_flatMap, List.nodup_flatMap]
  have of_edge : ∀ edge hello, hello ∈ (edgeTurns network rank edge).map Turn.hello →
      ∃ channel, hello = helloOf edge channel := by
    intro edge hello member
    unfold edgeTurns at member
    dsimp only at member
    split_ifs at member
    all_goals
      first
      | (simp only [List.map_map, List.mem_map, Function.comp_apply] at member
         obtain ⟨channel, -, rfl⟩ := member
         exact ⟨channel, rfl⟩)
      | cases member
  refine ⟨fun edge _ => ?_, ?_⟩
  · unfold edgeTurns
    dsimp only
    split_ifs
    all_goals
      first
      | (rw [List.map_map]
         refine List.Nodup.map ?_ List.nodup_range
         exact fun first second same => (helloOf_inj.mp same).2)
      | exact List.nodup_nil
  · refine (List.nodup_finRange n).pairwise_of_forall_ne fun edge _ edge' _ distinct => ?_
    intro hello inside inside'
    obtain ⟨channel, rfl⟩ := of_edge edge hello inside
    obtain ⟨channel', same⟩ := of_edge edge' _ inside'
    exact distinct (helloOf_inj.mp same).1

/-- The HELLOs a rank expects, in the order of its loops. -/
def expectedHellos (network : Network n) (rank : Fin n) : List SocketHello :=
  ((turns network rank).filter fun turn => decide (turn.remote ≤ rank.val)).map Turn.hello

theorem nodup_expectedHellos (rank : Fin n) : (expectedHellos network rank).Nodup :=
  (nodup_turns network rank).sublist (List.filter_sublist.map Turn.hello)

/-- The rank that connects for an edge, and the rank that accepts. -/
theorem turn_unique {rank rank' : Fin n} {turn turn' : Turn} (member : turn ∈ turns network rank)
    (member' : turn' ∈ turns network rank') (hello : turn.hello = turn'.hello)
    (connects : rank.val < turn.remote) (connects' : rank'.val < turn'.remote) :
    rank = rank' ∧ turn = turn' := by
  obtain ⟨edge, channel, -, named, ends⟩ := mem_turns.mp member
  obtain ⟨edge', channel', -, named', ends'⟩ := mem_turns.mp member'
  obtain ⟨rfl, rfl⟩ := helloOf_inj.mp (named.symm.trans (hello.trans named'))
  obtain ⟨remote, _⟩ := turn
  obtain ⟨remote', _⟩ := turn'
  dsimp only at hello named ends ends' connects connects'
  subst hello
  rcases ends with ⟨rfl, rfl⟩ | ⟨rfl, rfl⟩ <;> rcases ends' with ⟨same, rfl⟩ | ⟨same, rfl⟩
  · exact ⟨same, rfl⟩
  · subst same
    omega
  · subst same
    omega
  · exact ⟨same, rfl⟩

/-- What a rank connects for, the rank at the other end expects. -/
theorem mem_expectedHellos_of_turn {rank peer : Fin n} {turn : Turn}
    (member : turn ∈ turns network rank) (remote : turn.remote = peer)
    (connects : rank.val < turn.remote) : turn.hello ∈ expectedHellos network peer := by
  obtain ⟨edge, channel, wanted, named, ends⟩ := mem_turns.mp member
  refine List.mem_map.mpr ⟨⟨rank, turn.hello⟩, List.mem_filter.mpr ⟨mem_turns.mpr
    ⟨edge, channel, wanted, named, ?_⟩, ?_⟩, rfl⟩
  · rcases ends with ⟨rfl, there⟩ | ⟨rfl, there⟩
    · exact .inr ⟨Fin.ext (there.symm.trans remote), rfl⟩
    · exact .inl ⟨Fin.ext (there.symm.trans remote), rfl⟩
  · rw [remote] at connects
    simpa using connects.le

/-- What a rank expects, the rank at the other end connects for. -/
theorem exists_turn_of_mem_expectedHellos {peer : Fin n} {hello : SocketHello}
    (member : hello ∈ expectedHellos network peer) :
    ∃ rank : Fin n, ∃ turn ∈ turns network rank, turn.hello = hello ∧ turn.remote = peer ∧
      rank.val < turn.remote := by
  obtain ⟨turn, kept, rfl⟩ := List.mem_map.mp member
  obtain ⟨inside, below⟩ := List.mem_filter.mp kept
  obtain ⟨edge, channel, wanted, named, ends⟩ := mem_turns.mp inside
  have apart : (receiver edge).val ≠ edge.val := fun same =>
    receiver_ne network.two_le edge (Fin.ext same)
  have smaller : turn.remote ≤ peer.val := by simpa using below
  rcases ends with ⟨rfl, there⟩ | ⟨rfl, there⟩
  · refine ⟨receiver edge, ⟨edge, turn.hello⟩, mem_turns.mpr
      ⟨edge, channel, wanted, named, .inr ⟨rfl, rfl⟩⟩, rfl, rfl, ?_⟩
    dsimp only
    omega
  · refine ⟨edge, ⟨receiver edge, turn.hello⟩, mem_turns.mpr
      ⟨edge, channel, wanted, named, .inl ⟨rfl, rfl⟩⟩, rfl, rfl, ?_⟩
    dsimp only
    omega

end Bootstrap
end NanoNccl
