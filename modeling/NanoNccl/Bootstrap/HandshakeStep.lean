import NanoNccl.Bootstrap.Handshake

/-!
# Steps of the TCP bootstrap

Each step of a rank keeps the invariant of that rank; together with the frame rule for the other
ranks it holds in every reachable state.
-/

namespace NanoNccl
namespace Bootstrap

open Socket StepSystem

variable {n : ℕ} {network : Network n}

namespace MemberInv

variable {tcps : List (Tcp n)} {rank : Fin n} {member : Member}

theorem initial : MemberInv network [] rank ⟨.loop (turns network rank), [], 0, 0, []⟩ where
  loops := ⟨[], rfl, rfl, rfl⟩
  unfailed := by rintro _ ⟨⟩
  written := by rintro _ _ ⟨⟩
  writing := by rintro _ _ _ _ ⟨⟩
  reading := by rintro _ _ ⟨⟩
  untaken := by rintro _ _ ⟨⟩
  nodup_held := List.nodup_nil
  mem_held := by simp [Member.held, ConnectPc.current]
  named := by rintro _ ⟨⟩
  index_eq := rfl
  acceptedHellos_eq := rfl
  complete := by rintro ⟨⟩

/-- Program points outside of the reads and writes. -/
theorem goto (inv : MemberInv network tcps rank member) {pc : ConnectPc}
    (todo : pc.todo = member.pc.todo) (unsent : pc.unsent = member.pc.unsent)
    (current : pc.current = member.pc.current) (none_current : pc.current = [])
    (unfailed : ∀ error, pc ≠ .failed error)
    (complete : pc = .done → member.expectedAccepts ≤ member.index) :
    MemberInv network tcps rank (member.goto pc) where
  loops := by
    simp only [Member.goto, todo]
    exact inv.loops
  unfailed := unfailed
  written := by
    simp only [Member.goto, unsent]
    exact inv.written
  writing := by
    rintro tcp hello rest todo at_pc
    obtain rfl : pc = _ := at_pc
    cases none_current
  reading := by
    rintro tcp received at_pc
    obtain rfl : pc = _ := at_pc
    cases none_current
  untaken := inv.untaken
  nodup_held := by
    simp only [Member.goto, Member.held, current]
    exact inv.nodup_held
  mem_held := by
    simp only [Member.goto, Member.held, current]
    exact inv.mem_held
  named := inv.named
  index_eq := inv.index_eq
  acceptedHellos_eq := inv.acceptedHellos_eq
  complete := complete

/-- A turn in which the rank will accept. -/
theorem expectAccept (inv : MemberInv network tcps rank member) {turn : Turn} {todo : List Turn}
    (at_pc : member.pc = .loop (turn :: todo)) (accepts : ¬rank.val < turn.remote) :
    MemberInv network tcps rank
      { member with pc := .loop todo, expectedAccepts := member.expectedAccepts + 1 } := by
  obtain ⟨past, split, made_eq, counted⟩ := inv.loops
  rw [at_pc] at split
  refine
    { loops := ⟨past ++ [turn], ?_, ?_, ?_⟩, unfailed := by rintro _ ⟨⟩, written := ?_
      writing := by rintro _ _ _ _ ⟨⟩, reading := by rintro _ _ ⟨⟩, untaken := inv.untaken
      nodup_held := ?_, mem_held := ?_, named := inv.named, index_eq := inv.index_eq
      acceptedHellos_eq := inv.acceptedHellos_eq, complete := by rintro ⟨⟩ }
  · simpa [ConnectPc.todo] using split
  · simpa [Turn.connects, accepts] using made_eq
  · simpa [not_lt.mp accepts] using counted
  · have same := inv.written
    rw [at_pc] at same
    exact same
  · have same := inv.nodup_held
    rw [Member.held, at_pc] at same
    exact same
  · have same := inv.mem_held
    rw [Member.held, at_pc] at same
    exact same

/-- A turn in which the rank connects. -/
theorem connect (inv : MemberInv network tcps rank member) {turn : Turn} {todo : List Turn}
    (at_pc : member.pc = .loop (turn :: todo)) (connects : rank.val < turn.remote) :
    MemberInv network (tcps ++ [⟨rank, turn.remote, turn.hello, [], 0, false⟩]) rank
      (member.goto (.write tcps.length turn.hello (wireHello turn.hello) todo)) := by
  obtain ⟨past, split, made_eq, counted⟩ := inv.loops
  rw [at_pc] at split
  have here_new : (tcps ++ [⟨rank, turn.remote, turn.hello, [], 0, false⟩])[tcps.length]? =
      some ⟨rank, turn.remote, turn.hello, [], 0, false⟩ := by simp
  have unsent_old : ∀ i, member.pc.unsent i = [] := by
    intro i
    rw [at_pc]
    rfl
  have held_old : member.held = member.connections.map Connection.tcp := by
    rw [Member.held, at_pc]
    exact List.append_nil _
  have held_new : (member.goto (.write tcps.length turn.hello (wireHello turn.hello) todo)).held =
      member.held ++ [tcps.length] := by
    rw [held_old]
    rfl
  have fresh : tcps.length ∉ member.held := by
    intro old
    obtain ⟨link, here, -⟩ := (inv.mem_held _).mp old
    exact lt_irrefl _ (List.getElem?_eq_some_iff.mp here).1
  refine
    { loops := ⟨past ++ [turn], ?_, ?_, ?_⟩, unfailed := by rintro _ ⟨⟩, written := ?_
      writing := ?_, reading := by rintro _ _ ⟨⟩, untaken := ?_, nodup_held := ?_, mem_held := ?_
      named := ?_, index_eq := inv.index_eq, acceptedHellos_eq := inv.acceptedHellos_eq
      complete := by rintro ⟨⟩ }
  · simpa [Member.goto, ConnectPc.todo] using split
  · rw [List.filter_append, ← made_eq]
    simp [made, Tcp.origin, Turn.connects, connects]
  · simpa [Member.goto, connects] using counted
  · intro i link here client
    rcases Queue.getElem?_concat_eq_some_iff.mp here with old | ⟨rfl, rfl⟩
    · have apart : i ≠ tcps.length := (List.getElem?_eq_some_iff.mp old).1.ne
      have whole := inv.written i link old client
      rw [unsent_old] at whole
      simpa [Member.goto, ConnectPc.unsent, apart] using whole
    · simp [Member.goto, ConnectPc.unsent]
  · intro tcp hello rest todo' at_pc'
    obtain ⟨rfl, rfl, rfl, rfl⟩ : tcps.length = tcp ∧ turn.hello = hello ∧
        wireHello turn.hello = rest ∧ todo = todo' := by simpa [Member.goto] using at_pc'
    exact ⟨_, here_new, rfl, rfl⟩
  · intro i link here server pending
    rcases Queue.getElem?_concat_eq_some_iff.mp here with old | ⟨rfl, rfl⟩
    · exact inv.untaken i link old server pending
    · rfl
  · rw [held_new]
    exact inv.nodup_held.append (List.nodup_singleton _) (by simpa using fresh)
  · intro i
    rw [held_new, List.mem_append, List.mem_singleton, inv.mem_held]
    constructor
    · rintro (⟨link, here, holds⟩ | rfl)
      · exact ⟨link, Queue.getElem?_concat_eq_some_iff.mpr (.inl here), holds⟩
      · exact ⟨_, here_new, .inl rfl⟩
    · rintro ⟨link, here, holds⟩
      rcases Queue.getElem?_concat_eq_some_iff.mp here with old | ⟨rfl, rfl⟩
      · exact .inl ⟨link, old, holds⟩
      · exact .inr rfl
  · intro connection member_of
    obtain ⟨link, here, named⟩ := inv.named connection member_of
    exact ⟨link, Queue.getElem?_concat_eq_some_iff.mpr (.inl here), named⟩

/-- The turn in which a rank has made a connection. -/
theorem turn_of_client (inv : MemberInv network tcps rank member) {i : ℕ} {link : Tcp n}
    (here : tcps[i]? = some link) (client : link.client = rank) :
    ⟨link.server, link.hello⟩ ∈ turns network rank ∧ rank.val < link.server := by
  obtain ⟨past, split, made_eq, -⟩ := inv.loops
  have inside : ⟨link.server, link.hello⟩ ∈ past.filter (Turn.connects · rank) :=
    made_eq ▸ mem_made.mpr ⟨i, link, here, client, rfl⟩
  obtain ⟨before, connects⟩ := List.mem_filter.mp inside
  exact ⟨split ▸ List.mem_append_left _ before, by simpa [Turn.connects] using connects⟩

/-- A rank does not expect the HELLOs it sends itself. -/
theorem not_expected_of_client (inv : MemberInv network tcps rank member) {i : ℕ} {link : Tcp n}
    (here : tcps[i]? = some link) (client : link.client = rank) :
    link.hello ∉ expectedHellos network rank := by
  intro expected
  obtain ⟨inside, connects⟩ := inv.turn_of_client here client
  obtain ⟨turn, kept, same⟩ := List.mem_map.mp expected
  obtain ⟨inside', accepts⟩ := List.mem_filter.mp kept
  have equal : turn = ⟨link.server, link.hello⟩ :=
    List.inj_on_of_nodup_map (nodup_turns _ rank) inside' inside same
  have below : turn.remote ≤ rank.val := by simpa using accepts
  rw [equal] at below
  exact absurd connects (not_lt.mpr below)

theorem server_ne_of_client (inv : MemberInv network tcps rank member) {i : ℕ} {link : Tcp n}
    (here : tcps[i]? = some link) (client : link.client = rank) : link.server ≠ rank :=
  (inv.turn_of_client here client).2.ne'

/-- The rank has written its HELLO and keeps the connection. -/
theorem finishWrite (inv : MemberInv network tcps rank member) {tcp : ℕ} {hello : SocketHello}
    {todo : List Turn} (at_pc : member.pc = .write tcp hello [] todo) :
    MemberInv network tcps rank
      { member with pc := .loop todo, connections := member.connections ++ [⟨tcp, hello⟩] } := by
  obtain ⟨link, here, client, rfl⟩ := inv.writing _ _ _ _ at_pc
  have unexpected := inv.not_expected_of_client here client
  have held_eq : (({ member with
      pc := .loop todo, connections := member.connections ++ [⟨tcp, link.hello⟩] } :
        Member)).held = member.held := by
    simp [Member.held, at_pc, ConnectPc.current]
  have accepted_eq : accepted network rank (member.connections ++ [⟨tcp, link.hello⟩]) =
      accepted network rank member.connections := by
    simp [accepted, unexpected]
  refine
    { loops := ?_, unfailed := by rintro _ ⟨⟩, written := ?_, writing := by rintro _ _ _ _ ⟨⟩
      reading := by rintro _ _ ⟨⟩, untaken := inv.untaken, nodup_held := held_eq ▸ inv.nodup_held
      mem_held := held_eq ▸ inv.mem_held, named := ?_
      index_eq := by rw [accepted_eq]; exact inv.index_eq
      acceptedHellos_eq := by rw [accepted_eq]; exact inv.acceptedHellos_eq
      complete := by rintro ⟨⟩ }
  · have same := inv.loops
    rw [at_pc] at same
    exact same
  · intro i other there client'
    have whole := inv.written i other there client'
    rw [at_pc] at whole
    simpa [ConnectPc.unsent] using whole
  · intro connection member_of
    rcases List.mem_append.mp member_of with old | new
    · exact inv.named connection old
    · rw [List.mem_singleton] at new
      subst new
      exact ⟨link, here, rfl⟩

/-- A change of a connection that leaves its origin keeps what does not depend on the rest. -/
theorem loops_modify (inv : MemberInv network tcps rank member) {tcp : ℕ}
    {change : Tcp n → Tcp n} (origin : ∀ link, (change link).origin = link.origin) {pc : ConnectPc}
    (todo : pc.todo = member.pc.todo) :
    ∃ past, turns network rank = past ++ pc.todo ∧
      made (tcps.modify tcp change) rank = past.filter (Turn.connects · rank) ∧
      member.expectedAccepts = past.countP (fun turn => decide (turn.remote ≤ rank.val)) := by
  rw [todo, made, map_origin_modify origin]
  exact inv.loops

theorem named_modify (inv : MemberInv network tcps rank member) {tcp : ℕ}
    {change : Tcp n → Tcp n} (origin : ∀ link, (change link).origin = link.origin)
    (connection : Connection) (member_of : connection ∈ member.connections) :
    ∃ link, (tcps.modify tcp change)[connection.tcp]? = some link ∧
      link.hello = connection.hello := by
  obtain ⟨link, here, named⟩ := inv.named connection member_of
  refine ⟨_, getElem?_modify_some here, ?_⟩
  split_ifs
  · exact (Tcp.hello_of_origin (origin link)).trans named
  · exact named

/-- A change of a connection that hands over no end keeps the ends a rank holds. -/
theorem mem_held_modify (inv : MemberInv network tcps rank member) {tcp : ℕ}
    {change : Tcp n → Tcp n} (origin : ∀ link, (change link).origin = link.origin)
    (accepted : ∀ link, (change link).accepted = link.accepted) {member' : Member}
    (held : member'.held = member.held) (i : ℕ) :
    i ∈ member'.held ↔ ∃ link, (tcps.modify tcp change)[i]? = some link ∧ link.HeldBy rank := by
  have same : ∀ link, (change link).HeldBy rank ↔ link.HeldBy rank := by
    intro link
    rw [Tcp.HeldBy, Tcp.client_of_origin (origin link), Tcp.server_of_origin (origin link),
      accepted, Tcp.HeldBy]
  rw [held, inv.mem_held]
  constructor
  · rintro ⟨link, here, holds⟩
    refine ⟨_, getElem?_modify_some here, ?_⟩
    split_ifs
    · exact (same link).mpr holds
    · exact holds
  · rintro ⟨link', here', holds⟩
    obtain ⟨link, here, rfl⟩ := exists_of_getElem?_modify here'
    refine ⟨link, here, ?_⟩
    split_ifs at holds
    · exact (same link).mp holds
    · exact holds

/-- Steps of a server keep what the rank has written as a client. -/
theorem written_modify (inv : MemberInv network tcps rank member) {tcp : ℕ}
    {change : Tcp n → Tcp n} (origin : ∀ link, (change link).origin = link.origin)
    (sent : ∀ link, (change link).sent = link.sent) {pc : ConnectPc}
    (unsent : pc.unsent = member.pc.unsent) (i : ℕ) (link' : Tcp n)
    (here' : (tcps.modify tcp change)[i]? = some link') (client : link'.client = rank) :
    link'.sent ++ pc.unsent i = wireHello link'.hello := by
  obtain ⟨link, here, rfl⟩ := exists_of_getElem?_modify here'
  have whole := inv.written i link here
  rw [unsent]
  split_ifs at client ⊢
  · rw [Tcp.client_of_origin (origin link)] at client
    rw [sent, Tcp.hello_of_origin (origin link)]
    exact whole client
  · exact whole client

/-- `send` takes some bytes. -/
theorem send (inv : MemberInv network tcps rank member) {tcp : ℕ} {hello : SocketHello}
    {rest : List UInt8} {todo : List Turn} (at_pc : member.pc = .write tcp hello rest todo)
    (count : ℕ) :
    MemberInv network
      (tcps.modify tcp fun link => { link with sent := link.sent ++ rest.take count }) rank
      (member.goto (.write tcp hello (rest.drop count) todo)) := by
  have origin : ∀ link : Tcp n,
      ({ link with sent := link.sent ++ rest.take count } : Tcp n).origin = link.origin :=
    fun _ => rfl
  have held_eq : (member.goto (.write tcp hello (rest.drop count) todo)).held = member.held := by
    simp [Member.goto, Member.held, at_pc, ConnectPc.current]
  refine
    { loops := inv.loops_modify origin (by rw [at_pc]; rfl), unfailed := by rintro _ ⟨⟩
      written := ?_, writing := ?_, reading := by rintro _ _ ⟨⟩, untaken := ?_
      nodup_held := held_eq ▸ inv.nodup_held
      mem_held := inv.mem_held_modify origin (fun _ => rfl) held_eq
      named := inv.named_modify origin
      index_eq := inv.index_eq, acceptedHellos_eq := inv.acceptedHellos_eq
      complete := by rintro ⟨⟩ }
  · intro i link' here' client
    obtain ⟨link, here, rfl⟩ := exists_of_getElem?_modify here'
    by_cases changed : tcp = i
    · subst changed
      simp only [if_true] at client ⊢
      have whole := inv.written tcp link here client
      simpa [Member.goto, at_pc, ConnectPc.unsent] using whole
    · rw [if_neg changed] at client ⊢
      have whole := inv.written i link here client
      simpa [Member.goto, at_pc, ConnectPc.unsent, Ne.symm changed] using whole
  · intro tcp' hello' rest' todo' at_pc'
    obtain ⟨rfl, rfl, -, rfl⟩ : tcp = tcp' ∧ hello = hello' ∧ rest.drop count = rest' ∧
        todo = todo' := by simpa [Member.goto] using at_pc'
    obtain ⟨link, here, client, named⟩ := inv.writing _ _ _ _ at_pc
    refine ⟨_, getElem?_modify_some here, ?_⟩
    simpa using ⟨client, named⟩
  · intro i link' here' server pending
    obtain ⟨link, here, rfl⟩ := exists_of_getElem?_modify here'
    have untaken := inv.untaken i link here
    split_ifs at server pending ⊢ <;> exact untaken server pending

/-- The listener returns a connection that was made to it. -/
theorem accept (inv : MemberInv network tcps rank member) {tcp : ℕ} {link : Tcp n}
    (at_pc : member.pc = .accept) (here : tcps[tcp]? = some link) (server : link.server = rank)
    (pending : link.accepted = false) :
    MemberInv network (tcps.modify tcp fun link => { link with accepted := true }) rank
      (member.goto (.read tcp [])) := by
  have origin : ∀ link : Tcp n, ({ link with accepted := true } : Tcp n).origin = link.origin :=
    fun _ => rfl
  have other : link.client ≠ rank := fun client => inv.server_ne_of_client here client server
  have held_eq : (member.goto (.read tcp [])).held = member.held ++ [tcp] := by
    simp [Member.goto, Member.held, at_pc, ConnectPc.current]
  have fresh : tcp ∉ member.held := by
    intro old
    obtain ⟨link', here', holds⟩ := (inv.mem_held tcp).mp old
    obtain rfl : link = link' := Option.some.inj (here.symm.trans here')
    rcases holds with client | ⟨-, taken⟩
    · exact other client
    · simp [pending] at taken
  refine
    { loops := inv.loops_modify origin (by rw [at_pc]; rfl), unfailed := by rintro _ ⟨⟩
      written := inv.written_modify origin (fun _ => rfl) (by rw [at_pc]; rfl)
      writing := by rintro _ _ _ _ ⟨⟩, reading := ?_, untaken := ?_
      nodup_held := ?_, mem_held := ?_, named := inv.named_modify origin
      index_eq := inv.index_eq, acceptedHellos_eq := inv.acceptedHellos_eq
      complete := by rintro ⟨⟩ }
  · intro tcp' received at_pc'
    obtain ⟨rfl, rfl⟩ : tcp = tcp' ∧ [] = received := by simpa [Member.goto] using at_pc'
    refine ⟨_, getElem?_modify_some here, ?_⟩
    simp [server, inv.untaken tcp link here server pending]
  · intro i link' here' server' pending'
    obtain ⟨old, there, rfl⟩ := exists_of_getElem?_modify here'
    by_cases changed : tcp = i
    · simp [changed] at pending'
    · rw [if_neg changed] at server' pending' ⊢
      exact inv.untaken i old there server' pending'
  · rw [held_eq]
    exact inv.nodup_held.append (List.nodup_singleton _) (by simpa using fresh)
  · intro i
    rw [held_eq, List.mem_append, List.mem_singleton, inv.mem_held]
    constructor
    · rintro (⟨old, there, holds⟩ | rfl)
      · refine ⟨_, getElem?_modify_some there, ?_⟩
        split_ifs
        · exact holds.imp id fun both => ⟨both.1, rfl⟩
        · exact holds
      · refine ⟨_, getElem?_modify_some here, ?_⟩
        simp [Tcp.HeldBy, server]
    · rintro ⟨link', here', holds⟩
      obtain ⟨old, there, rfl⟩ := exists_of_getElem?_modify here'
      by_cases changed : tcp = i
      · exact .inr changed.symm
      · rw [if_neg changed] at holds
        exact .inl ⟨old, there, holds⟩

/-- `recv` returns some bytes. -/
theorem recv (inv : MemberInv network tcps rank member) {tcp : ℕ} {link : Tcp n}
    {received : List UInt8} (at_pc : member.pc = .read tcp received)
    (here : tcps[tcp]? = some link) {count : ℕ}
    (available : link.taken + count ≤ link.sent.length) :
    MemberInv network (tcps.modify tcp fun link => { link with taken := link.taken + count }) rank
      (member.goto (.read tcp (received ++ (link.sent.drop link.taken).take count))) := by
  have origin : ∀ link : Tcp n,
      ({ link with taken := link.taken + count } : Tcp n).origin = link.origin := fun _ => rfl
  have held_eq : (member.goto (.read tcp
      (received ++ (link.sent.drop link.taken).take count))).held = member.held := by
    simp [Member.goto, Member.held, at_pc, ConnectPc.current]
  obtain ⟨link', here', server, read, -⟩ := inv.reading _ _ at_pc
  obtain rfl : link = link' := Option.some.inj (here.symm.trans here')
  have taken : link.accepted = true := by
    obtain ⟨link', here', holds⟩ := (inv.mem_held tcp).mp (by simp [Member.held, at_pc,
      ConnectPc.current])
    obtain rfl : link = link' := Option.some.inj (here.symm.trans here')
    rcases holds with client | ⟨-, taken⟩
    · exact absurd server (inv.server_ne_of_client here client)
    · exact taken
  refine
    { loops := inv.loops_modify origin (by rw [at_pc]; rfl), unfailed := by rintro _ ⟨⟩
      written := inv.written_modify origin (fun _ => rfl) (by rw [at_pc]; rfl)
      writing := by rintro _ _ _ _ ⟨⟩, reading := ?_, untaken := ?_
      nodup_held := held_eq ▸ inv.nodup_held
      mem_held := inv.mem_held_modify origin (fun _ => rfl) held_eq
      named := inv.named_modify origin
      index_eq := inv.index_eq, acceptedHellos_eq := inv.acceptedHellos_eq
      complete := by rintro ⟨⟩ }
  · intro tcp' received' at_pc'
    obtain ⟨rfl, rfl⟩ : tcp = tcp' ∧
        received ++ (link.sent.drop link.taken).take count = received' := by
      simpa [Member.goto] using at_pc'
    refine ⟨_, getElem?_modify_some here, ?_⟩
    simp only [if_true]
    exact ⟨server, by rw [read, List.take_add], available⟩
  · intro i link' here' server' pending
    obtain ⟨old, there, rfl⟩ := exists_of_getElem?_modify here'
    by_cases changed : tcp = i
    · subst changed
      obtain rfl : link = old := Option.some.inj (here.symm.trans there)
      simp [taken] at pending
    · rw [if_neg changed] at server' pending ⊢
      exact inv.untaken i old there server' pending

end MemberInv

end Bootstrap
end NanoNccl
