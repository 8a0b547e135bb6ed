import NanoNccl.Bootstrap.Delivery

/-!
# Both ends of every connection

When all ranks are behind their loops, the connections that go to a rank are as many as it has
counted. When all ranks are done, both ranks of an edge hold the two ends of the same connection for
each of its channels.
-/

namespace NanoNccl
namespace Bootstrap

open Socket StepSystem

variable {n : ℕ} {network : Network n}

/-! ### Connections of a rank behind its loops -/

theorem MemberInv.expectedAccepts_eq {tcps : List (Tcp n)} {rank : Fin n} {member : Member}
    (inv : MemberInv network tcps rank member) (behind : member.pc.todo = []) :
    member.expectedAccepts = (expectedHellos network rank).length := by
  obtain ⟨past, split, -, counted⟩ := inv.loops
  rw [behind, List.append_nil] at split
  rw [counted, ← split, expectedHellos, List.length_map, List.countP_eq_length_filter]

/-- A rank behind its loops has connected in all of its turns. -/
theorem MemberInv.exists_tcp {tcps : List (Tcp n)} {rank : Fin n} {member : Member}
    (inv : MemberInv network tcps rank member) (behind : member.pc.todo = []) {turn : Turn}
    (inside : turn ∈ turns network rank) (connects : rank.val < turn.remote) :
    ∃ (tcp : ℕ) (link : Tcp n), tcps[tcp]? = some link ∧ link.client = rank ∧
      link.server = turn.remote ∧ link.hello = turn.hello := by
  obtain ⟨past, split, made_eq, -⟩ := inv.loops
  rw [behind, List.append_nil] at split
  have past_turn : turn ∈ made tcps rank := by
    rw [made_eq, ← split]
    exact List.mem_filter.mpr ⟨inside, by simpa [Turn.connects] using connects⟩
  obtain ⟨tcp, link, here, client, rfl⟩ := mem_made.mp past_turn
  exact ⟨tcp, link, here, client, rfl, rfl⟩

/-- TCP connections that stand in a list under a HELLO. -/
def tcpsOf (connections : List Connection) (hello : SocketHello) : List ℕ :=
  (connections.filter fun connection => decide (connection.hello = hello)).map Connection.tcp

/-- The HELLO of a connection names an edge of the rank. -/
def IsEdge (network : Network n) (rank : Fin n) (connection : Connection) : Prop :=
  ∃ edge channel, Wanted network edge channel ∧ connection.hello = helloOf edge channel ∧
    (edge = rank ∨ receiver edge = rank)

namespace ConnectInv

variable {state : ConnectState n}

/-- HELLOs of the connections that go to a rank. -/
theorem hellos_perm (inv : ConnectInv network state)
    (behind : ∀ rank, (state.members rank).pc.todo = []) (rank : Fin n) :
    ((state.tcps.filter fun link => decide (link.server = rank.val)).map Tcp.hello).Perm
      (expectedHellos network rank) := by
  refine (List.perm_ext_iff_of_nodup ?_ (nodup_expectedHellos rank)).mpr fun hello => ⟨?_, ?_⟩
  · refine List.Nodup.sublist (List.filter_sublist.map Tcp.hello) ?_
    rw [List.nodup_iff_injective_getElem]
    intro i j same
    simp only [List.getElem_map] at same
    exact Fin.ext (inv.eq_of_hello (List.getElem?_eq_getElem _) (List.getElem?_eq_getElem _) same)
  · intro member
    obtain ⟨link, kept, rfl⟩ := List.mem_map.mp member
    obtain ⟨inside, server⟩ := List.mem_filter.mp kept
    obtain ⟨i, here⟩ := List.mem_iff_getElem?.mp inside
    exact inv.hello_mem here (by simpa using server)
  · intro member
    obtain ⟨client, turn, inside, rfl, server, connects⟩ := exists_turn_of_mem_expectedHellos member
    obtain ⟨tcp, link, here, -, remote, named⟩ :=
      (inv client).exists_tcp (behind client) inside connects
    refine List.mem_map.mpr ⟨link, List.mem_filter.mpr ⟨List.mem_of_getElem? here, ?_⟩, named⟩
    simpa [remote] using server

/-- HELLOs that a rank has accepted when it is done. -/
theorem accepted_perm (inv : ConnectInv network state) {rank : Fin n}
    (done : (state.members rank).pc = .done) :
    ((accepted network rank (state.members rank).connections).map Connection.hello).Perm
      (expectedHellos network rank) := by
  have own := inv rank
  have distinct :
      ((accepted network rank (state.members rank).connections).map Connection.hello).Nodup := by
    have tcps : ((state.members rank).connections.map Connection.tcp).Nodup :=
      (own.nodup_held).of_append_left
    refine List.Nodup.map_on ?_ ((tcps.of_map).filter _)
    intro first member second member' same
    have inside := (List.mem_filter.mp member).1
    have inside' := (List.mem_filter.mp member').1
    obtain ⟨link, here, named⟩ := own.named first inside
    obtain ⟨link', here', named'⟩ := own.named second inside'
    refine List.inj_on_of_nodup_map tcps inside inside' (inv.eq_of_hello here here' ?_)
    rw [named, named', same]
  have subset : (accepted network rank (state.members rank).connections).map Connection.hello ⊆
      expectedHellos network rank := by
    intro hello member
    obtain ⟨connection, kept, rfl⟩ := List.mem_map.mp member
    simpa using (List.mem_filter.mp kept).2
  refine (distinct.subperm subset).perm_of_length_le ?_
  rw [List.length_map, ← own.index_eq, ← own.expectedAccepts_eq (by rw [done]; rfl)]
  exact own.complete done

/-- Connections of a rank are for its edges. -/
theorem isEdge (inv : ConnectInv network state) {rank : Fin n} {connection : Connection}
    (member : connection ∈ (state.members rank).connections) :
    IsEdge network rank connection := by
  obtain ⟨link, here, named⟩ := (inv rank).named connection member
  have held : connection.tcp ∈ (state.members rank).held :=
    List.mem_append_left _ (List.mem_map_of_mem member)
  obtain ⟨link', here', holds⟩ := ((inv rank).mem_held _).mp held
  obtain rfl : link = link' := Option.some.inj (here.symm.trans here')
  rcases holds with client | ⟨server, -⟩
  · obtain ⟨turn, -⟩ := (inv rank).turn_of_client here client
    obtain ⟨edge, channel, wanted, hello, ends⟩ := mem_turns.mp turn
    exact ⟨edge, channel, wanted, named.symm.trans hello, ends.imp And.left And.left⟩
  · obtain ⟨edge, channel, wanted, hello, ends⟩ :=
      mem_expectedHellos.mp (inv.hello_mem here server)
    exact ⟨edge, channel, wanted, named.symm.trans hello, ends.imp And.left And.left⟩

/-- A rank that is done holds one connection for each HELLO of its own. -/
theorem tcpsOf_eq (inv : ConnectInv network state) {rank : Fin n}
    (done : (state.members rank).pc = .done) {tcp : ℕ} {link : Tcp n}
    (here : state.tcps[tcp]? = some link) (holds : link.client = rank ∨ link.server = rank) :
    tcpsOf (state.members rank).connections link.hello = [tcp] := by
  have own := inv rank
  have held_eq : (state.members rank).held =
      (state.members rank).connections.map Connection.tcp := by
    rw [Member.held, done]
    exact List.append_nil _
  have only : ∀ connection ∈ (state.members rank).connections, connection.hello = link.hello →
      connection.tcp = tcp := by
    intro connection member same
    obtain ⟨link', here', named⟩ := own.named connection member
    exact inv.eq_of_hello here' here (named.trans same)
  have kept : ∃ connection ∈ (state.members rank).connections, connection.hello = link.hello := by
    rcases holds with client | server
    · have inside : tcp ∈ (state.members rank).held :=
        (own.mem_held tcp).mpr ⟨link, here, .inl client⟩
      rw [held_eq] at inside
      obtain ⟨connection, member, rfl⟩ := List.mem_map.mp inside
      obtain ⟨link', here', named⟩ := own.named connection member
      obtain rfl : link = link' := Option.some.inj (here.symm.trans here')
      exact ⟨connection, member, named.symm⟩
    · obtain ⟨connection, member, same⟩ :=
        List.mem_map.mp ((inv.accepted_perm done).mem_iff.mpr (inv.hello_mem here server))
      exact ⟨connection, (List.mem_filter.mp member).1, same⟩
  have nodup : (tcpsOf (state.members rank).connections link.hello).Nodup :=
    (held_eq ▸ own.nodup_held).sublist (List.filter_sublist.map Connection.tcp)
  rw [← List.perm_singleton, List.perm_ext_iff_of_nodup nodup (List.nodup_singleton tcp)]
  intro i
  simp only [tcpsOf, List.mem_map, List.mem_filter, decide_eq_true_eq, List.mem_singleton]
  constructor
  · rintro ⟨connection, ⟨member, same⟩, rfl⟩
    exact only connection member same
  · rintro rfl
    obtain ⟨connection, member, same⟩ := kept
    exact ⟨connection, ⟨member, same⟩, only connection member same⟩

/-- The listener of a rank that is done has returned all connections that go to it. -/
theorem accepted_of_done (inv : ConnectInv network state) {rank : Fin n}
    (done : (state.members rank).pc = .done) {tcp : ℕ} {link : Tcp n}
    (here : state.tcps[tcp]? = some link) (server : link.server = rank) : link.accepted = true := by
  have only := inv.tcpsOf_eq done here (.inr server)
  have member : tcp ∈ tcpsOf (state.members rank).connections link.hello := by simp [only]
  obtain ⟨connection, kept, same⟩ := List.mem_map.mp member
  have held : tcp ∈ (state.members rank).held :=
    List.mem_append_left _ (List.mem_map.mpr ⟨connection, (List.mem_filter.mp kept).1, same⟩)
  obtain ⟨link', here', holds⟩ := ((inv rank).mem_held tcp).mp held
  obtain rfl : link = link' := Option.some.inj (here.symm.trans here')
  rcases holds with client | ⟨-, accepted⟩
  · exact absurd server ((inv rank).server_ne_of_client here client)
  · exact accepted

/-- Each channel of an edge has a connection between the two ranks. -/
theorem exists_link (inv : ConnectInv network state)
    (behind : ∀ rank, (state.members rank).pc.todo = []) {edge : Fin n} {channel : ℕ}
    (wanted : Wanted network edge channel) :
    ∃ (tcp : ℕ) (link : Tcp n), state.tcps[tcp]? = some link ∧ link.hello = helloOf edge channel ∧
      (link.client = edge ∧ link.server = receiver edge ∨
        link.client = receiver edge ∧ link.server = edge) := by
  have apart : edge ≠ receiver edge := (receiver_ne network.two_le edge).symm
  rcases lt_or_gt_of_ne apart with below | above
  · have turn : ⟨receiver edge, helloOf edge channel⟩ ∈ turns network edge :=
      mem_turns.mpr ⟨edge, channel, wanted, rfl, .inl ⟨rfl, rfl⟩⟩
    obtain ⟨tcp, link, here, client, server, named⟩ :=
      (inv edge).exists_tcp (behind edge) turn below
    exact ⟨tcp, link, here, named, .inl ⟨client, server⟩⟩
  · have turn : ⟨edge, helloOf edge channel⟩ ∈ turns network (receiver edge) :=
      mem_turns.mpr ⟨edge, channel, wanted, rfl, .inr ⟨rfl, rfl⟩⟩
    obtain ⟨tcp, link, here, client, server, named⟩ :=
      (inv (receiver edge)).exists_tcp (behind _) turn above
    exact ⟨tcp, link, here, named, .inr ⟨client, server⟩⟩

end ConnectInv

end Bootstrap
end NanoNccl
