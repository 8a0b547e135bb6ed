import Mathlib.Data.Fintype.Basic

/-!
# The ring of ranks

A communicator joins `n` processes of one GPU each into a ring: edge `e` carries data from rank `e`
to rank `e + 1` modulo `n`. The kind of every edge follows from the requested transport, from the
nodes the ranks run on and from the result of the P2P probe, which all ranks know.
-/

namespace NanoNccl
namespace Bootstrap

/-- `TransportKind` -/
inductive TransportKind
  | auto
  | shm
  | p2p
  | socket
  | rdma
  | mixed
  deriving DecidableEq, Repr

variable {n : ℕ}

/-- The rank an edge leads to. -/
def receiver (edge : Fin n) : Fin n := ⟨(edge + 1) % n, Nat.mod_lt _ edge.pos⟩

/-- The edge that leads to a rank. -/
def incomingEdge (rank : Fin n) : Fin n := ⟨(rank + n - 1) % n, Nat.mod_lt _ rank.pos⟩

theorem receiver_incomingEdge (rank : Fin n) : receiver (incomingEdge rank) = rank := by
  apply Fin.ext
  have below := rank.isLt
  simp only [receiver, incomingEdge]
  rcases Nat.eq_zero_or_pos rank.val with first | later
  · have last : rank.val + n - 1 < n := by omega
    rw [Nat.mod_eq_of_lt last]
    have whole : rank.val + n - 1 + 1 = n := by omega
    rw [whole, Nat.mod_self, first]
  · have wrapped : rank.val + n - 1 = rank.val - 1 + n := by omega
    have previous : rank.val - 1 < n := by omega
    rw [wrapped, Nat.add_mod_right, Nat.mod_eq_of_lt previous, Nat.sub_add_cancel later,
      Nat.mod_eq_of_lt below]

theorem incomingEdge_receiver (edge : Fin n) : incomingEdge (receiver edge) = edge := by
  apply Fin.ext
  have below := edge.isLt
  simp only [receiver, incomingEdge]
  rcases Nat.lt_or_ge (edge.val + 1) n with inner | last
  · have wrapped : edge.val + 1 + n - 1 = edge.val + n := by omega
    rw [Nat.mod_eq_of_lt inner, wrapped, Nat.add_mod_right, Nat.mod_eq_of_lt below]
  · have whole : edge.val + 1 = n := by omega
    have previous : 0 + n - 1 < n := by omega
    rw [whole, Nat.mod_self, Nat.mod_eq_of_lt previous]
    omega

/-- In a ring of at least two ranks an edge joins two ranks. -/
theorem receiver_ne (two_le : 2 ≤ n) (edge : Fin n) : receiver edge ≠ edge := by
  intro same
  have looped : (edge.val + 1) % n = edge.val := congrArg Fin.val same
  have below := edge.isLt
  rcases Nat.lt_or_ge (edge.val + 1) n with inner | last
  · rw [Nat.mod_eq_of_lt inner] at looped
    omega
  · have whole : edge.val + 1 = n := by omega
    rw [whole, Nat.mod_self] at looped
    omega

/-- How an edge is named in an error. -/
def edgeName (edge : Fin n) : String :=
  toString edge.val ++ "->" ++ toString (receiver edge).val

/-- The kind of one edge, for the requested transport. `rdmaEnabled` is the build option
`NANO_NCCL_ENABLE_RDMA`. -/
def resolveEdge (rdmaEnabled : Bool) (requested : TransportKind) (nodeIds : Fin n → ℤ)
    (p2pCapable : Fin n → Bool) (edge : Fin n) : Except String TransportKind :=
  let sameHost := decide (nodeIds edge = nodeIds (receiver edge))
  match requested with
  | .auto => .ok (if sameHost then (if p2pCapable edge then .p2p else .shm) else .socket)
  | .shm =>
      if sameHost then .ok .shm
      else .error ("SHM edge " ++ edgeName edge ++
        " unavailable across hosts; actual available backend is socket")
  | .p2p =>
      if sameHost then
        if p2pCapable edge then .ok .p2p
        else .error ("P2P edge " ++ edgeName edge ++
          " failed the CUDA IPC probe; actual available backend is shm")
      else .error ("P2P edge " ++ edgeName edge ++
        " unavailable across hosts; actual available backend is socket")
  | .socket => .ok .socket
  | .rdma =>
      if rdmaEnabled then
        .ok (if sameHost then (if p2pCapable edge then .p2p else .shm) else .rdma)
      else .error "rdma transport requires NANO_NCCL_ENABLE_RDMA=ON"
  | .mixed => .error "mixed is a resolved transport and cannot be requested"

/-- Fill a vector over all edges, or stop at the first edge that is refused. -/
def forEdges (kinds : Fin n → Except String TransportKind) :
    Except String (Fin n → TransportKind) :=
  match (List.finRange n).findSome? fun edge =>
      match kinds edge with
      | .error message => some message
      | .ok _ => none with
  | some message => .error message
  | none => .ok fun edge =>
      match kinds edge with
      | .ok kind => kind
      | .error _ => .shm

/-- `resolve_interprocess_transports` -/
def resolveInterprocessTransports (rdmaEnabled : Bool) (requested : TransportKind)
    (nodeIds : Fin n → ℤ) (p2pCapable : Fin n → Bool) : Except String (Fin n → TransportKind) :=
  forEdges (resolveEdge rdmaEnabled requested nodeIds p2pCapable)

/-- `is_resolved_edge_kind` -/
def TransportKind.isResolved : TransportKind → Bool
  | .shm | .p2p | .socket | .rdma => true
  | .auto | .mixed => false

/-- `validate_process_topology`; what it checks of the ranks and devices holds of one device per
process. -/
def validateProcessTopology (edgeKinds : Fin n → TransportKind) : Except String Unit :=
  if ∀ edge, (edgeKinds edge).isResolved then .ok ()
  else .error "process topology edge kind must be resolved"

theorem resolveEdge_isResolved {rdmaEnabled : Bool} {requested kind : TransportKind}
    {nodeIds : Fin n → ℤ} {p2pCapable : Fin n → Bool} {edge : Fin n}
    (resolved : resolveEdge rdmaEnabled requested nodeIds p2pCapable edge = .ok kind) :
    kind.isResolved = true := by
  unfold resolveEdge at resolved
  cases requested
  all_goals
    dsimp only at resolved
    try split_ifs at resolved
    all_goals
      first
      | (obtain rfl := Except.ok.inj resolved; rfl)
      | cases resolved

/-- Every edge of a filled vector was accepted. -/
theorem forEdges_ok {kinds : Fin n → Except String TransportKind}
    {edgeKinds : Fin n → TransportKind}
    (filled : forEdges kinds = .ok edgeKinds) (edge : Fin n) :
    kinds edge = .ok (edgeKinds edge) := by
  unfold forEdges at filled
  split at filled
  · cases filled
  · case h_2 accepted =>
      obtain rfl := Except.ok.inj filled
      rw [List.findSome?_eq_none_iff] at accepted
      have here := accepted edge (List.mem_finRange edge)
      dsimp only
      cases at_edge : kinds edge with
      | ok kind => rfl
      | error message => simp [at_edge] at here

/-- What `resolve_interprocess_transports` returns is a valid topology. -/
theorem validateProcessTopology_resolve {rdmaEnabled : Bool} {requested : TransportKind}
    {nodeIds : Fin n → ℤ} {p2pCapable : Fin n → Bool} {edgeKinds : Fin n → TransportKind}
    (resolved : resolveInterprocessTransports rdmaEnabled requested nodeIds p2pCapable =
      .ok edgeKinds) : validateProcessTopology edgeKinds = .ok () :=
  if_pos fun edge => resolveEdge_isResolved (forEdges_ok resolved edge)

end Bootstrap
end NanoNccl
