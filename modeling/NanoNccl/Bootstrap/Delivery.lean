import NanoNccl.Bootstrap.HandshakeStep

/-!
# HELLOs that a rank accepts

The 16 bytes that a rank reads from a connection are the HELLO its client named the connection by.
The rank expects it, and it has not accepted it before, since every HELLO has one turn of one rank
behind it. None of the checks of the accepting loop throws, and the invariant holds of all ranks in
every reachable state.
-/

namespace NanoNccl
namespace Bootstrap

open Socket StepSystem

variable {n : ℕ} {network : Network n}

/-! ### Checks of an expected HELLO -/

/-- A HELLO that a rank expects, and the edge it is for. -/
theorem mem_expectedHellos {rank : Fin n} {hello : SocketHello} :
    hello ∈ expectedHellos network rank ↔ ∃ edge channel, Wanted network edge channel ∧
      hello = helloOf edge channel ∧
      (edge = rank ∧ receiver edge ≤ rank ∨ receiver edge = rank ∧ edge ≤ rank) := by
  constructor
  · intro member
    obtain ⟨turn, kept, rfl⟩ := List.mem_map.mp member
    obtain ⟨inside, below⟩ := List.mem_filter.mp kept
    obtain ⟨edge, channel, wanted, named, ends⟩ := mem_turns.mp inside
    have smaller : turn.remote ≤ rank.val := by simpa using below
    refine ⟨edge, channel, wanted, named, ?_⟩
    rcases ends with ⟨source, there⟩ | ⟨destination, there⟩
    · exact .inl ⟨source, Fin.le_def.mpr (there ▸ smaller)⟩
    · exact .inr ⟨destination, Fin.le_def.mpr (there ▸ smaller)⟩
  · rintro ⟨edge, channel, wanted, rfl, ends⟩
    rcases ends with ⟨source, below⟩ | ⟨destination, below⟩
    · refine List.mem_map.mpr ⟨⟨receiver edge, helloOf edge channel⟩, List.mem_filter.mpr
        ⟨mem_turns.mpr ⟨edge, channel, wanted, rfl, .inl ⟨source, rfl⟩⟩, ?_⟩, rfl⟩
      simpa using below
    · refine List.mem_map.mpr ⟨⟨edge, helloOf edge channel⟩, List.mem_filter.mpr
        ⟨mem_turns.mpr ⟨edge, channel, wanted, rfl, .inr ⟨destination, rfl⟩⟩, ?_⟩, rfl⟩
      simpa using below

theorem edgeKindOf_helloOf (network : Network n) (edge : Fin n) (channel : ℕ) :
    edgeKindOf network (helloOf edge channel).sourceGlobalRank = network.edgeKinds edge := by
  simp [edgeKindOf, helloOf]

theorem isExpectedHello_of_mem {rank : Fin n} {hello : SocketHello}
    (member : hello ∈ expectedHellos network rank) : isExpectedHello network hello rank = true := by
  obtain ⟨edge, channel, wanted, rfl, ends⟩ := mem_expectedHellos.mp member
  have apart : edge.val ≠ (receiver edge).val := fun same =>
    receiver_ne network.two_le edge (Fin.ext same.symm)
  have kind := edgeKindOf_helloOf network edge channel
  have bootstraps : network.edgeKinds edge = .socket ∨ network.edgeKinds edge = .rdma :=
    wanted.bootstraps
  have channel_lt := wanted.channel_lt
  have next : ((receiver edge).val : ℤ) = ((edge.val : ℤ) + 1) % n := by
    simp [receiver]
  have ring : ¬((helloOf edge channel).sourceGlobalRank < 0 ∨
      (n : ℤ) ≤ (helloOf edge channel).sourceGlobalRank ∨
      (helloOf edge channel).destinationGlobalRank ≠
        ((helloOf edge channel).sourceGlobalRank + 1) % n ∨
      (helloOf edge channel).channel < 0 ∨
      (network.kChannels : ℤ) ≤ (helloOf edge channel).channel) := by
    simp only [helloOf, next]
    omega
  rw [isExpectedHello, if_neg ring, kind]
  have largest : rank.val = max edge.val (receiver edge).val := by
    rcases ends with ⟨rfl, below⟩ | ⟨rfl, below⟩
    · exact (max_eq_left (Fin.le_def.mp below)).symm
    · exact (max_eq_right (Fin.le_def.mp below)).symm
  have one : edge.val = rank.val ∨ (receiver edge).val = rank.val := by
    rcases ends with ⟨rfl, -⟩ | ⟨rfl, -⟩
    · exact .inl rfl
    · exact .inr rfl
  simp only [helloOf, Int.toNat_natCast, processOf_eq edge.isLt, processOf_eq (receiver edge).isLt]
  simpa [apart, one, largest, le_total (receiver edge) edge] using bootstraps

/-- An expected HELLO is read as it was written. -/
theorem readHello_of_mem {rank : Fin n} {hello : SocketHello}
    (member : hello ∈ expectedHellos network rank) : readHello (wireHello hello) = .ok hello := by
  obtain ⟨edge, channel, wanted, rfl, -⟩ := mem_expectedHellos.mp member
  have fits := network.fits
  have channels := network.channels_le
  have channel_lt := wanted.channel_lt
  exact readHello_wireHello (by omega) (by omega) (by omega)

theorem helloKey_inj_of_mem {rank : Fin n} {hello hello' : SocketHello}
    (member : hello ∈ expectedHellos network rank) (member' : hello' ∈ expectedHellos network rank)
    (same : helloKey hello = helloKey hello') : hello = hello' := by
  obtain ⟨edge, channel, wanted, rfl, -⟩ := mem_expectedHellos.mp member
  obtain ⟨edge', channel', wanted', rfl, -⟩ := mem_expectedHellos.mp member'
  have fits := network.fits
  have channels := network.channels_le
  have channel_lt := wanted.channel_lt
  have channel_lt' := wanted'.channel_lt
  obtain ⟨edges, equal⟩ := helloKey_injective (by omega) (by omega) (by omega) (by omega) same
  exact helloOf_inj.mpr ⟨Fin.ext edges, equal⟩

/-! ### One connection for every HELLO -/

/-- A rank makes no two connections in one turn. -/
theorem eq_of_made {tcps : List (Tcp n)} {rank : Fin n} (nodup : (made tcps rank).Nodup)
    {i j : ℕ} {link link' : Tcp n} (here : tcps[i]? = some link) (here' : tcps[j]? = some link')
    (client : link.client = rank) (same : link.origin = link'.origin) : i = j := by
  have client' : link'.client = rank := (congrArg Prod.fst same).symm.trans client
  have turns_eq : (⟨link.server, link.hello⟩ : Turn) = ⟨link'.server, link'.hello⟩ :=
    congrArg Prod.snd same
  induction tcps generalizing i j with
  | nil => cases here
  | cons first tcps ih =>
      have made_cons : first.client = rank → made (first :: tcps) rank =
          ⟨first.server, first.hello⟩ :: made tcps rank := fun own => by
        simp [made, Tcp.origin, own]
      have made_tail : (made tcps rank).Nodup := by
        by_cases own : first.client = rank
        · exact (made_cons own ▸ nodup).of_cons
        · simpa [made, Tcp.origin, own] using nodup
      cases i with
      | zero =>
          obtain rfl : first = link := by simpa using here
          cases j with
          | zero => rfl
          | succ j =>
              have later := (List.nodup_cons.mp (made_cons client ▸ nodup)).1
              exact absurd (mem_made.mpr ⟨j, link', here', client', turns_eq⟩) later
      | succ i =>
          cases j with
          | zero =>
              obtain rfl : first = link' := by simpa using here'
              have later := (List.nodup_cons.mp (made_cons client' ▸ nodup)).1
              exact absurd (mem_made.mpr ⟨i, link, here, client, turns_eq.symm⟩) later
          | succ j => rw [ih made_tail here here']

theorem MemberInv.nodup_made {tcps : List (Tcp n)} {rank : Fin n} {member : Member}
    (inv : MemberInv network tcps rank member) : (made tcps rank).Nodup := by
  obtain ⟨past, split, made_eq, -⟩ := inv.loops
  have all := (nodup_turns network rank).of_map
  rw [split] at all
  rw [made_eq]
  exact all.of_append_left.filter _

/-- All ranks at once. -/
def ConnectInv (network : Network n) (state : ConnectState n) : Prop :=
  ∀ rank, MemberInv network state.tcps rank (state.members rank)

namespace ConnectInv

variable {state : ConnectState n} {i j : ℕ} {link link' : Tcp n}

/-- Connections with one HELLO are the same connection. -/
theorem eq_of_hello (inv : ConnectInv network state) (here : state.tcps[i]? = some link)
    (here' : state.tcps[j]? = some link') (same : link.hello = link'.hello) : i = j := by
  obtain ⟨turn, connects⟩ := (inv link.client).turn_of_client here rfl
  obtain ⟨turn', connects'⟩ := (inv link'.client).turn_of_client here' rfl
  obtain ⟨clients, turns_eq⟩ := turn_unique turn turn' same connects connects'
  exact eq_of_made (inv link.client).nodup_made here here' rfl (Prod.ext clients turns_eq)

/-- The rank a connection goes to expects its HELLO. -/
theorem hello_mem (inv : ConnectInv network state) (here : state.tcps[i]? = some link)
    {rank : Fin n} (server : link.server = rank) : link.hello ∈ expectedHellos network rank := by
  obtain ⟨turn, connects⟩ := (inv link.client).turn_of_client here rfl
  exact mem_expectedHellos_of_turn turn server connects

/-- A rank that has read 16 bytes has read the HELLO of the connection. -/
theorem received_eq (inv : ConnectInv network state) {rank : Fin n} {tcp : ℕ}
    {received : List UInt8} (at_pc : (state.members rank).pc = .read tcp received)
    (whole : 16 ≤ received.length) :
    ∃ link, state.tcps[tcp]? = some link ∧ link.server = rank ∧
      received = wireHello link.hello := by
  obtain ⟨link, here, server, read, -⟩ := (inv rank).reading _ _ at_pc
  refine ⟨link, here, server, ?_⟩
  have written := (inv link.client).written tcp link here rfl
  have start : received <+: wireHello link.hello := by
    rw [read, ← written]
    exact (List.take_prefix _ _).trans (List.prefix_append _ _)
  exact start.eq_of_length_le (by simpa using whole)

/-- The HELLO a rank is reading is not among those it has accepted. -/
theorem not_accepted (inv : ConnectInv network state) {rank : Fin n} {tcp : ℕ}
    {received : List UInt8} (at_pc : (state.members rank).pc = .read tcp received)
    (here : state.tcps[tcp]? = some link) (server : link.server = rank) :
    helloKey link.hello ∉ (state.members rank).acceptedHellos := by
  intro duplicate
  rw [(inv rank).acceptedHellos_eq] at duplicate
  obtain ⟨connection, kept, keys⟩ := List.mem_map.mp duplicate
  obtain ⟨member, expected⟩ := List.mem_filter.mp kept
  have expects : connection.hello ∈ expectedHellos network rank := by simpa using expected
  have hellos := helloKey_inj_of_mem expects (inv.hello_mem here server) keys
  obtain ⟨link', here', named⟩ := (inv rank).named connection member
  have tcps : connection.tcp = tcp := inv.eq_of_hello here' here (named.trans hellos)
  have nodup := (inv rank).nodup_held
  rw [Member.held, at_pc] at nodup
  exact (List.disjoint_of_nodup_append nodup) (List.mem_map.mpr ⟨connection, member, tcps⟩)
    (List.mem_singleton_self tcp)

/-- The rank takes the connection it has read the HELLO of. -/
theorem acceptHello_eq (inv : ConnectInv network state) {rank : Fin n} {tcp : ℕ}
    {received : List UInt8} (at_pc : (state.members rank).pc = .read tcp received)
    (whole : 16 ≤ received.length) :
    ∃ link, state.tcps[tcp]? = some link ∧ link.server = rank ∧
      (state.members rank).acceptHello network rank tcp received =
        { pc := .accept
          connections := (state.members rank).connections ++ [⟨tcp, link.hello⟩]
          expectedAccepts := (state.members rank).expectedAccepts
          index := (state.members rank).index + 1
          acceptedHellos := (state.members rank).acceptedHellos ++ [helloKey link.hello] } := by
  obtain ⟨link, here, server, rfl⟩ := inv.received_eq at_pc whole
  have expected := inv.hello_mem here server
  refine ⟨link, here, server, ?_⟩
  simp only [Member.acceptHello, readHello_of_mem expected, isExpectedHello_of_mem expected,
    if_true, if_neg (inv.not_accepted at_pc here server)]

end ConnectInv

/-! ### Steps of all ranks -/

/-- The rank keeps the connection whose HELLO it has read. -/
theorem MemberInv.keep {tcps : List (Tcp n)} {rank : Fin n} {member : Member} {tcp : ℕ}
    {link : Tcp n} {received : List UInt8} (inv : MemberInv network tcps rank member)
    (at_pc : member.pc = .read tcp received) (here : tcps[tcp]? = some link)
    (expected : link.hello ∈ expectedHellos network rank) :
    MemberInv network tcps rank
      { pc := .accept
        connections := member.connections ++ [⟨tcp, link.hello⟩]
        expectedAccepts := member.expectedAccepts
        index := member.index + 1
        acceptedHellos := member.acceptedHellos ++ [helloKey link.hello] } := by
  have held_eq : ({ pc := .accept
                    connections := member.connections ++ [⟨tcp, link.hello⟩]
                    expectedAccepts := member.expectedAccepts
                    index := member.index + 1
                    acceptedHellos := member.acceptedHellos ++ [helloKey link.hello] } :
      Member).held = member.held := by
    simp [Member.held, at_pc, ConnectPc.current]
  have accepted_eq : accepted network rank (member.connections ++ [⟨tcp, link.hello⟩]) =
      accepted network rank member.connections ++ [⟨tcp, link.hello⟩] := by
    simp [accepted, expected]
  refine
    { loops := ?_, unfailed := by rintro _ ⟨⟩, written := ?_, writing := by rintro _ _ _ _ ⟨⟩
      reading := by rintro _ _ ⟨⟩, untaken := inv.untaken, nodup_held := held_eq ▸ inv.nodup_held
      mem_held := held_eq ▸ inv.mem_held, named := ?_
      index_eq := by simp [accepted_eq, inv.index_eq]
      acceptedHellos_eq := by simp [accepted_eq, inv.acceptedHellos_eq]
      complete := by rintro ⟨⟩ }
  · have same := inv.loops
    rw [at_pc] at same
    exact same
  · have same := inv.written
    rw [at_pc] at same
    exact same
  · intro connection member_of
    rcases List.mem_append.mp member_of with old | new
    · exact inv.named connection old
    · obtain rfl := List.mem_singleton.mp new
      exact ⟨link, here, rfl⟩

namespace ConnectInv

variable {state next : ConnectState n} {rank : Fin n}

theorem initial : ConnectInv network (initialConnect network) := fun _ => MemberInv.initial

/-- A step of one rank, and what it leaves to the others. -/
theorem of_update {tcps : List (Tcp n)} {member : Member} (inv : ConnectInv network state)
    (own : MemberInv network tcps rank member)
    (others : ∀ other, other ≠ rank → Kept state.tcps tcps other) :
    ConnectInv network ⟨Function.update state.members rank member, tcps⟩ := by
  intro other
  by_cases same : other = rank
  · subst same
    simpa using own
  · simpa [Function.update_of_ne same] using (inv other).frame (others other same)

theorem set {member : Member} (inv : ConnectInv network state)
    (own : MemberInv network state.tcps rank member) :
    ConnectInv network (state.set rank member) :=
  inv.of_update own fun other _ => .refl state.tcps other

theorem move (inv : ConnectInv network state)
    (taken : localStep network state rank = some next) : ConnectInv network next := by
  have own := inv rank
  unfold localStep at taken
  cases at_pc : (state.members rank).pc with
  | loop todo =>
      cases todo with
      | nil =>
          simp only [at_pc, Option.some.injEq] at taken
          subst taken
          exact inv.set (own.goto (by rw [at_pc]; rfl) (by rw [at_pc]; rfl) (by rw [at_pc]; rfl) rfl
            (by rintro _ ⟨⟩) (by rintro ⟨⟩))
      | cons turn todo =>
          simp only [at_pc] at taken
          split at taken
          next connects =>
            obtain rfl := Option.some.inj taken
            refine inv.of_update (own.connect at_pc connects) fun other different => ?_
            exact .append (Ne.symm different) rfl rfl
          next accepts =>
            obtain rfl := Option.some.inj taken
            exact inv.set (own.expectAccept at_pc accepts)
  | write tcp hello rest todo =>
      cases rest with
      | nil =>
          simp only [at_pc, Option.some.injEq] at taken
          subst taken
          exact inv.set (own.finishWrite at_pc)
      | cons byte rest => simp [at_pc] at taken
  | accept =>
      simp only [at_pc] at taken
      split at taken
      next => cases taken
      next complete =>
        obtain rfl := Option.some.inj taken
        exact inv.set (own.goto (by rw [at_pc]; rfl) (by rw [at_pc]; rfl) (by rw [at_pc]; rfl) rfl
          (by rintro _ ⟨⟩) fun _ => not_lt.mp complete)
  | read tcp received =>
      simp only [at_pc] at taken
      split at taken
      next => cases taken
      next whole =>
        obtain rfl := Option.some.inj taken
        obtain ⟨link, here, server, kept⟩ := inv.acceptHello_eq at_pc (not_lt.mp whole)
        rw [kept]
        exact inv.set (own.keep at_pc here (inv.hello_mem here server))
  | done => simp [at_pc] at taken
  | failed error => simp [at_pc] at taken

theorem send {count : ℕ} (inv : ConnectInv network state)
    (taken : sendHello state rank count = some next) : ConnectInv network next := by
  have own := inv rank
  unfold sendHello at taken
  cases at_pc : (state.members rank).pc with
  | write tcp hello rest todo =>
      simp only [at_pc] at taken
      split at taken
      next =>
        obtain rfl := Option.some.inj taken
        obtain ⟨link, here, client, -⟩ := own.writing _ _ _ _ at_pc
        refine inv.of_update (own.send at_pc count) fun other different => ?_
        refine .modify (fun _ => rfl) fun link' here' => ?_
        obtain rfl : link = link' := Option.some.inj (here.symm.trans here')
        exact ⟨rfl, List.prefix_append _ _,
          fun client' => absurd (client'.symm.trans client) different, fun _ => rfl, fun _ => rfl⟩
      next => cases taken
  | loop _ | accept | read _ _ | done | failed _ => simp [at_pc] at taken

theorem accept {tcp : ℕ} (inv : ConnectInv network state)
    (taken : acceptTcp state rank tcp = some next) : ConnectInv network next := by
  have own := inv rank
  unfold acceptTcp at taken
  cases at_pc : (state.members rank).pc with
  | accept =>
      cases here : state.tcps[tcp]? with
      | none => simp [at_pc, here] at taken
      | some link =>
          simp only [at_pc, here] at taken
          split at taken
          next pending =>
            obtain rfl := Option.some.inj taken
            refine inv.of_update (own.accept at_pc here pending.2.1 pending.2.2) fun other different
              => ?_
            refine .modify (fun _ => rfl) fun link' here' => ?_
            obtain rfl : link = link' := Option.some.inj (here.symm.trans here')
            exact ⟨rfl, List.prefix_rfl, fun _ => rfl,
              fun server => absurd (Fin.ext (server.symm.trans pending.2.1)) different,
                fun _ => rfl⟩
          next => cases taken
  | loop _ | write _ _ _ _ | read _ _ | done | failed _ => simp [at_pc] at taken

theorem recv {count : ℕ} (inv : ConnectInv network state)
    (taken : recvHello state rank count = some next) : ConnectInv network next := by
  have own := inv rank
  unfold recvHello at taken
  cases at_pc : (state.members rank).pc with
  | read tcp received =>
      obtain ⟨link, here, server, -, -⟩ := own.reading _ _ at_pc
      simp only [at_pc, here] at taken
      split at taken
      next available =>
        obtain rfl := Option.some.inj taken
        refine inv.of_update (own.recv at_pc here available.2.1) fun other different => ?_
        refine .modify (fun _ => rfl) fun link' here' => ?_
        obtain rfl : link = link' := Option.some.inj (here.symm.trans here')
        exact ⟨rfl, List.prefix_rfl, fun _ => rfl, fun _ => rfl,
          fun server' => absurd (Fin.ext (server'.symm.trans server)) different⟩
      next => cases taken
  | loop _ | write _ _ _ _ | accept | done | failed _ => simp [at_pc] at taken

/-- Every step keeps the invariant. -/
theorem step {label : ConnectLabel n} (inv : ConnectInv network state)
    (taken : connectStep network state label = some next) : ConnectInv network next := by
  cases label with
  | move rank => exact inv.move taken
  | send rank count => exact inv.send taken
  | accept rank tcp => exact inv.accept taken
  | recv rank count => exact inv.recv taken

end ConnectInv

theorem ConnectReachable.inv {state : ConnectState n} (reachable : ConnectReachable network state) :
    ConnectInv network state :=
  Reachable.invariant (ConnectInv network) (fun _ _ _ inv taken => inv.step taken)
    ConnectInv.initial reachable

end Bootstrap
end NanoNccl
