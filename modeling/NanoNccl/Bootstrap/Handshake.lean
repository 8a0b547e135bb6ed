import NanoNccl.Bootstrap.Matching
import NanoNccl.Lib.Numbered

/-!
# Invariant of the TCP bootstrap

For one rank and the list of all connections: how far the loops of the rank have come, which bytes
of its HELLOs are still to be written, which ends of connections it holds, and which HELLOs it has
accepted. The steps of other ranks keep all of this, since they touch only the other end of a
connection.
-/

namespace NanoNccl
namespace Bootstrap

open Socket StepSystem

variable {n : ℕ} {network : Network n}

/-! ### Views of the state -/

/-- Turns left to a rank. -/
def ConnectPc.todo : ConnectPc → List Turn
  | .loop todo | .write _ _ _ todo => todo
  | .accept | .read _ _ | .done | .failed _ => []

/-- Bytes a rank has still to write to a connection. -/
def ConnectPc.unsent : ConnectPc → ℕ → List UInt8
  | .write current _ rest _, tcp => if tcp = current then rest else []
  | .loop _, _ | .accept, _ | .read _ _, _ | .done, _ | .failed _, _ => []

/-- The connection a rank is about to add to its list. -/
def ConnectPc.current : ConnectPc → List ℕ
  | .write tcp _ _ _ | .read tcp _ => [tcp]
  | .loop _ | .accept | .done | .failed _ => []

/-- Connections one of whose ends a rank holds. -/
def Member.held (member : Member) : List ℕ :=
  member.connections.map Connection.tcp ++ member.pc.current

/-- Accepted ones among the connections of a rank. -/
def accepted (network : Network n) (rank : Fin n) (connections : List Connection) :
    List Connection :=
  connections.filter fun connection => decide (connection.hello ∈ expectedHellos network rank)

/-- The client of a connection and the turn it was made in. -/
def Tcp.origin (link : Tcp n) : Fin n × Turn := (link.client, ⟨link.server, link.hello⟩)

/-- The turns in which a rank made the connections. -/
def made (tcps : List (Tcp n)) (rank : Fin n) : List Turn :=
  ((tcps.map Tcp.origin).filter fun origin => decide (origin.1 = rank)).map Prod.snd

/-- The rank has one end of the connection. -/
def Tcp.HeldBy (link : Tcp n) (rank : Fin n) : Prop :=
  link.client = rank ∨ link.server = rank ∧ link.accepted = true

/-- A turn in which the rank connects. -/
def Turn.connects (turn : Turn) (rank : Fin n) : Bool := decide (rank.val < turn.remote)

theorem mem_made {tcps : List (Tcp n)} {rank : Fin n} {turn : Turn} :
    turn ∈ made tcps rank ↔ ∃ (i : ℕ) (link : Tcp n), tcps[i]? = some link ∧
      link.client = rank ∧ turn = ⟨link.server, link.hello⟩ := by
  simp only [made, List.mem_map, List.mem_filter, decide_eq_true_eq, Tcp.origin]
  constructor
  · rintro ⟨_, ⟨⟨link, inside, rfl⟩, client⟩, rfl⟩
    obtain ⟨i, here⟩ := List.mem_iff_getElem?.mp inside
    exact ⟨i, link, here, client, rfl⟩
  · rintro ⟨i, link, here, client, rfl⟩
    exact ⟨_, ⟨⟨link, List.mem_of_getElem? here, rfl⟩, client⟩, rfl⟩

/-! ### The invariant -/

/-- What holds of a rank. -/
structure MemberInv (network : Network n) (tcps : List (Tcp n)) (rank : Fin n)
    (member : Member) : Prop where
  /-- The turns behind the rank have made its connections and counted the others. -/
  loops : ∃ past, turns network rank = past ++ member.pc.todo ∧
    made tcps rank = past.filter (Turn.connects · rank) ∧
    member.expectedAccepts = past.countP (fun turn => decide (turn.remote ≤ rank.val))
  unfailed : ∀ error, member.pc ≠ .failed error
  /-- What was written and what is left to write make up the HELLO. -/
  written : ∀ (i : ℕ) (link : Tcp n), tcps[i]? = some link → link.client = rank →
    link.sent ++ member.pc.unsent i = wireHello link.hello
  writing : ∀ tcp hello rest todo, member.pc = .write tcp hello rest todo →
    ∃ link, tcps[tcp]? = some link ∧ link.client = rank ∧ link.hello = hello
  reading : ∀ tcp received, member.pc = .read tcp received →
    ∃ link, tcps[tcp]? = some link ∧ link.server = rank ∧
      received = link.sent.take link.taken ∧ link.taken ≤ link.sent.length
  untaken : ∀ (i : ℕ) (link : Tcp n), tcps[i]? = some link → link.server = rank →
    link.accepted = false → link.taken = 0
  nodup_held : member.held.Nodup
  mem_held : ∀ i, i ∈ member.held ↔ ∃ link, tcps[i]? = some link ∧ link.HeldBy rank
  /-- A connection carries the HELLO its client has written. -/
  named : ∀ connection ∈ member.connections,
    ∃ link, tcps[connection.tcp]? = some link ∧ link.hello = connection.hello
  index_eq : member.index = (accepted network rank member.connections).length
  acceptedHellos_eq : member.acceptedHellos =
    (accepted network rank member.connections).map fun connection => helloKey connection.hello
  /-- The accepting loop runs until all connections are there. -/
  complete : member.pc = .done → member.expectedAccepts ≤ member.index

/-! ### Steps of other ranks -/

theorem Tcp.client_of_origin {link link' : Tcp n} (same : link'.origin = link.origin) :
    link'.client = link.client :=
  congrArg Prod.fst same

theorem Tcp.server_of_origin {link link' : Tcp n} (same : link'.origin = link.origin) :
    link'.server = link.server :=
  congrArg (fun origin => origin.2.remote) same

theorem Tcp.hello_of_origin {link link' : Tcp n} (same : link'.origin = link.origin) :
    link'.hello = link.hello :=
  congrArg (fun origin => origin.2.hello) same

/-- What a step leaves alone of a connection, as far as it concerns a rank. -/
structure Tcp.Kept (link link' : Tcp n) (rank : Fin n) : Prop where
  origin : link'.origin = link.origin
  sent : link.sent <+: link'.sent
  sent_eq : link.client = rank → link'.sent = link.sent
  accepted_eq : link.server = rank → link'.accepted = link.accepted
  taken_eq : link.server = rank → link'.taken = link.taken

/-- What a step leaves alone of all connections. -/
structure Kept (tcps tcps' : List (Tcp n)) (rank : Fin n) : Prop where
  made_eq : made tcps' rank = made tcps rank
  old : ∀ (i : ℕ) (link : Tcp n), tcps[i]? = some link →
    ∃ link', tcps'[i]? = some link' ∧ link.Kept link' rank
  new : ∀ (i : ℕ) (link' : Tcp n), tcps'[i]? = some link' →
    (∃ link, tcps[i]? = some link ∧ link.Kept link' rank) ∨
      link'.client ≠ rank ∧ link'.accepted = false ∧ link'.taken = 0

theorem Tcp.Kept.refl (link : Tcp n) (rank : Fin n) : link.Kept link rank :=
  ⟨rfl, List.prefix_rfl, fun _ => rfl, fun _ => rfl, fun _ => rfl⟩

namespace Tcp.Kept

variable {link link' : Tcp n} {rank : Fin n}

theorem client_eq (kept : link.Kept link' rank) : link'.client = link.client :=
  Tcp.client_of_origin kept.origin

theorem server_eq (kept : link.Kept link' rank) : link'.server = link.server :=
  Tcp.server_of_origin kept.origin

theorem hello_eq (kept : link.Kept link' rank) : link'.hello = link.hello :=
  Tcp.hello_of_origin kept.origin

theorem heldBy_iff (kept : link.Kept link' rank) : link'.HeldBy rank ↔ link.HeldBy rank := by
  unfold Tcp.HeldBy
  rw [kept.client_eq, kept.server_eq]
  refine or_congr_right (and_congr_right fun server => ?_)
  rw [kept.accepted_eq server]

end Tcp.Kept

/-- A step that changes no origin changes none in the list. -/
theorem map_origin_modify {tcps : List (Tcp n)} {tcp : ℕ} {change : Tcp n → Tcp n}
    (same : ∀ link, (change link).origin = link.origin) :
    (tcps.modify tcp change).map Tcp.origin = tcps.map Tcp.origin := by
  refine List.ext_getElem? fun i => ?_
  rw [List.getElem?_map, List.getElem?_map, List.getElem?_modify]
  cases tcps[i]? with
  | none => rfl
  | some link =>
      by_cases here : tcp = i
      · simp [here, same]
      · simp [here]

theorem getElem?_modify_some {tcps : List (Tcp n)} {tcp i : ℕ} {change : Tcp n → Tcp n}
    {link : Tcp n} (here : tcps[i]? = some link) :
    (tcps.modify tcp change)[i]? = some (if tcp = i then change link else link) := by
  rw [List.getElem?_modify, here]
  split_ifs <;> rfl

theorem exists_of_getElem?_modify {tcps : List (Tcp n)} {tcp i : ℕ} {change : Tcp n → Tcp n}
    {link' : Tcp n} (here' : (tcps.modify tcp change)[i]? = some link') :
    ∃ link, tcps[i]? = some link ∧ link' = if tcp = i then change link else link := by
  cases here : tcps[i]? with
  | none =>
      rw [List.getElem?_modify, here] at here'
      cases here'
  | some link =>
      rw [getElem?_modify_some here, Option.some.injEq] at here'
      exact ⟨link, rfl, here'.symm⟩

theorem Kept.modify {tcps : List (Tcp n)} {tcp : ℕ} {change : Tcp n → Tcp n} {rank : Fin n}
    (origin : ∀ link, (change link).origin = link.origin)
    (same : ∀ link, tcps[tcp]? = some link → link.Kept (change link) rank) :
    Kept tcps (tcps.modify tcp change) rank := by
  have old : ∀ (i : ℕ) (link : Tcp n), tcps[i]? = some link →
      link.Kept (if tcp = i then change link else link) rank := by
    intro i link here
    split_ifs with changed
    · subst changed
      exact same link here
    · exact .refl link rank
  refine ⟨?_, fun i link here => ⟨_, getElem?_modify_some here, old i link here⟩,
    fun i link' here' => .inl ?_⟩
  · rw [made, map_origin_modify origin, made]
  · obtain ⟨link, here, rfl⟩ := exists_of_getElem?_modify here'
    exact ⟨link, here, old i link here⟩

theorem Kept.append {tcps : List (Tcp n)} {link : Tcp n} {rank : Fin n} (other : link.client ≠ rank)
    (fresh : link.accepted = false) (untaken : link.taken = 0) :
    Kept tcps (tcps ++ [link]) rank := by
  refine ⟨?_, fun i old here => ⟨old, ?_, .refl old rank⟩, fun i old here => ?_⟩
  · simp [made, Tcp.origin, other]
  · exact Queue.getElem?_concat_eq_some_iff.mpr (.inl here)
  · rcases Queue.getElem?_concat_eq_some_iff.mp here with here | ⟨-, rfl⟩
    · exact .inl ⟨old, here, .refl old rank⟩
    · exact .inr ⟨other, fresh, untaken⟩

theorem Kept.refl (tcps : List (Tcp n)) (rank : Fin n) : Kept tcps tcps rank :=
  ⟨rfl, fun _ link here => ⟨link, here, .refl link rank⟩,
    fun _ link here => .inl ⟨link, here, .refl link rank⟩⟩

/-- Steps of other ranks keep the invariant of a rank. -/
theorem MemberInv.frame {tcps tcps' : List (Tcp n)} {rank : Fin n} {member : Member}
    (inv : MemberInv network tcps rank member) (kept : Kept tcps tcps' rank) :
    MemberInv network tcps' rank member := by
  refine
    { loops := ?_, unfailed := inv.unfailed, written := ?_, writing := ?_, reading := ?_
      untaken := ?_, nodup_held := inv.nodup_held, mem_held := ?_, named := ?_
      index_eq := inv.index_eq, acceptedHellos_eq := inv.acceptedHellos_eq
      complete := inv.complete }
  · rw [kept.made_eq]
    exact inv.loops
  · intro i link' here' client
    rcases kept.new i link' here' with ⟨link, here, same⟩ | ⟨other, -, -⟩
    · have client' := same.client_eq.symm.trans client
      rw [same.sent_eq client', same.hello_eq]
      exact inv.written i link here client'
    · exact absurd client other
  · intro tcp hello rest todo at_pc
    obtain ⟨link, here, client, named⟩ := inv.writing tcp hello rest todo at_pc
    obtain ⟨link', here', same⟩ := kept.old tcp link here
    exact ⟨link', here', same.client_eq.trans client, same.hello_eq.trans named⟩
  · intro tcp received at_pc
    obtain ⟨link, here, server, read, bound⟩ := inv.reading tcp received at_pc
    obtain ⟨link', here', same⟩ := kept.old tcp link here
    have longer := same.sent.length_le
    refine ⟨link', here', same.server_eq.trans server, ?_, ?_⟩
    · obtain ⟨more, grown⟩ := same.sent
      rw [same.taken_eq server, read, ← grown, List.take_append_of_le_length bound]
    · rw [same.taken_eq server]
      omega
  · intro i link' here' server pending
    rcases kept.new i link' here' with ⟨link, here, same⟩ | ⟨-, -, zero⟩
    · have server' := same.server_eq.symm.trans server
      rw [same.taken_eq server']
      exact inv.untaken i link here server' ((same.accepted_eq server').symm.trans pending)
    · exact zero
  · intro i
    rw [inv.mem_held]
    constructor
    · rintro ⟨link, here, holds⟩
      obtain ⟨link', here', same⟩ := kept.old i link here
      exact ⟨link', here', same.heldBy_iff.mpr holds⟩
    · rintro ⟨link', here', holds⟩
      rcases kept.new i link' here' with ⟨link, here, same⟩ | ⟨other, pending, -⟩
      · exact ⟨link, here, same.heldBy_iff.mp holds⟩
      · rcases holds with client | ⟨-, taken⟩
        · exact absurd client other
        · simp [pending] at taken
  · intro connection member_of
    obtain ⟨link, here, named⟩ := inv.named connection member_of
    obtain ⟨link', here', same⟩ := kept.old _ link here
    exact ⟨link', here', same.hello_eq.trans named⟩

end Bootstrap
end NanoNccl
