import Mathlib.Algebra.Order.BigOperators.Group.Finset
import Mathlib.Data.Finset.Basic
import Mathlib.Data.Fintype.Basic
import Mathlib.Data.Fintype.BigOperators
import Mathlib.Data.Fintype.Lattice
import NanoNccl.Lib.Execution

/-!
# One program on several ranks

Ranks run on their own and meet only in collective operations of one communicator. The `k`-th
collective a rank enters is matched with the `k`-th one of every other rank; a rank leaves it once
all have entered it, and only if all have entered the same one. A rank that returns or throws never
enters another one, and leaves its peers behind if they do.

`Lockstep` says that no interleaving ever leaves a rank behind, `Aligned` says the same of the
programs themselves, and the two are equivalent.
-/

namespace Spmd

open StepSystem

/-- What is left to do for one of `n` ranks. Local work is done between the collectives and shows
only in their arguments. -/
inductive Program (n : ℕ) (κ ν φ α : Type)
  /-- The rank returns. -/
  | done (value : α)
  /-- The rank throws an exception in the stage `stage` of the program. -/
  | throw (stage : φ) (message : String)
  /-- The rank contributes a value to a collective and continues with everyone's values. -/
  | collective (site : κ) (value : ν) (next : (Fin n → ν) → Program n κ ν φ α)

namespace Program

variable {n : ℕ} {κ ν φ α β : Type}

/-- Sequential composition. -/
def bind : Program n κ ν φ α → (α → Program n κ ν φ β) → Program n κ ν φ β
  | done value, rest => rest value
  | throw stage message, _ => throw stage message
  | collective site value next, rest => collective site value fun values => (next values).bind rest

instance : Monad (Program n κ ν φ) where
  pure := done
  bind := bind

@[simp] theorem pure_eq (value : α) : (pure value : Program n κ ν φ α) = done value := rfl

@[simp] theorem done_bind (value : α) (rest : α → Program n κ ν φ β) :
    (done value >>= rest) = rest value := rfl

@[simp] theorem throw_bind (stage : φ) (message : String) (rest : α → Program n κ ν φ β) :
    (throw stage message >>= rest) = throw stage message := rfl

@[simp] theorem collective_bind (site : κ) (value : ν) (next : (Fin n → ν) → Program n κ ν φ α)
    (rest : α → Program n κ ν φ β) :
    (collective site value next >>= rest) =
      collective site value fun values => next values >>= rest := rfl

theorem bind_assoc {γ : Type} (program : Program n κ ν φ α) (second : α → Program n κ ν φ β)
    (third : β → Program n κ ν φ γ) :
    (program >>= second >>= third) = program >>= fun value => second value >>= third := by
  induction program with
  | done value => rfl
  | throw stage message => rfl
  | collective site value next ih =>
      simp only [collective_bind]
      exact congrArg _ (funext fun values => ih values)

/-- The rank has returned or thrown. -/
def finished : Program n κ ν φ α → Bool
  | done _ | throw _ _ => true
  | collective _ _ _ => false

/-- Leave a collective. -/
def advance (values : Fin n → ν) : Program n κ ν φ α → Program n κ ν φ α
  | collective _ _ next => next values
  | done value => done value
  | throw stage message => throw stage message

end Program

open Program

section

variable {n : ℕ} {κ ν φ α : Type}

/-- One rank among its peers. -/
structure Rank (n : ℕ) (κ ν φ α : Type) where
  /-- What it has left to do. -/
  program : Program n κ ν φ α
  /-- Collectives it has entered, with the values it contributed, oldest first. -/
  entered : List (κ × ν)
  /-- Number of collectives it has left. -/
  left : ℕ

/-- The sequence of collectives a rank has issued. -/
def Rank.sites (rank : Rank n κ ν φ α) : List κ := rank.entered.map Prod.fst

/-- One move of a rank. -/
inductive Label (n : ℕ)
  /-- A rank enters its next collective. -/
  | enter (rank : Fin n)
  /-- A rank leaves the collective it is in. -/
  | leave (rank : Fin n)
  deriving DecidableEq, Repr

/-- No rank has begun. -/
def initial (programs : Fin n → Program n κ ν φ α) : Fin n → Rank n κ ν φ α :=
  fun rank => ⟨programs rank, [], 0⟩

/-- Every rank has entered the collective with this number, and it was this one. -/
def Met [DecidableEq κ] (state : Fin n → Rank n κ ν φ α) (number : ℕ) (site : κ) : Prop :=
  ∀ rank, (state rank).sites[number]? = some site

instance [DecidableEq κ] (state : Fin n → Rank n κ ν φ α) (number : ℕ) (site : κ) :
    Decidable (Met state number site) :=
  inferInstanceAs (Decidable (∀ rank, (state rank).sites[number]? = some site))

/-- The values contributed to the collective with this number. -/
def contributions (state : Fin n → Rank n κ ν φ α) (number : ℕ) (default : ν) : Fin n → ν :=
  fun rank => ((state rank).entered[number]?.map Prod.snd).getD default

/-- The transition function. -/
def step [DecidableEq κ] (state : Fin n → Rank n κ ν φ α) :
    Label n → Option (Fin n → Rank n κ ν φ α)
  | .enter rank =>
      match (state rank).program with
      | .collective site value _ =>
          if (state rank).entered.length = (state rank).left then
            some (Function.update state rank
              { state rank with entered := (state rank).entered ++ [(site, value)] })
          else none
      | .done _ | .throw _ _ => none
  | .leave rank =>
      match (state rank).program with
      | .collective site value next =>
          if (state rank).entered.length = (state rank).left + 1 ∧
              Met state (state rank).left site then
            some (Function.update state rank
              { state rank with
                program := next (contributions state (state rank).left value)
                left := (state rank).left + 1 })
          else none
      | .done _ | .throw _ _ => none

/-- All ranks return, or all throw in the same stage. -/
def Uniform (programs : Fin n → Program n κ ν φ α) : Prop :=
  (∀ rank, ∃ value, programs rank = .done value) ∨
    ∃ stage, ∀ rank, ∃ message, programs rank = .throw stage message

/-- No interleaving leaves a rank behind: all ranks issue the same sequence of collectives, a rank
that has finished has issued all of it, no run goes on forever, and when nothing moves any more all
ranks have returned or all have thrown in one stage. -/
structure Lockstep [DecidableEq κ] (programs : Fin n → Program n κ ν φ α) : Prop where
  agree : ∀ state, Reachable step (initial programs) state →
    ∀ first second, (state first).sites <+: (state second).sites ∨
      (state second).sites <+: (state first).sites
  complete : ∀ state, Reachable step (initial programs) state →
    ∀ rank, (state rank).program.finished = true → ∀ peer, (state peer).sites <+: (state rank).sites
  bounded : ∃ bound, ∀ labels state,
    exec step (initial programs) labels = some state → labels.length ≤ bound
  unstranded : ∀ state, Reachable step (initial programs) state →
    (∀ label, step state label = none) → Uniform fun rank => (state rank).program

/-- Programs that meet in the same collectives and finish alike. -/
inductive Aligned : (Fin n → Program n κ ν φ α) → Prop
  | uniform {programs : Fin n → Program n κ ν φ α} (alike : Uniform programs) : Aligned programs
  | collective {site : κ} {values : Fin n → ν} {next : Fin n → (Fin n → ν) → Program n κ ν φ α}
      (later : Aligned fun rank => next rank values) :
      Aligned fun rank => .collective site (values rank) (next rank)

/-- What is left of a program after some collectives with known values. -/
def Program.after (program : Program n κ ν φ α) (rounds : List (κ × (Fin n → ν))) :
    Program n κ ν φ α :=
  rounds.foldl (fun program round => program.advance round.2) program

/-- The collectives in which the ranks meet, with everyone's values. -/
structure Script (programs : Fin n → Program n κ ν φ α) (rounds : List (κ × (Fin n → ν))) :
    Prop where
  meets : ∀ number round, rounds[number]? = some round → ∀ rank, ∃ next,
    (programs rank).after (rounds.take number) = .collective round.1 (round.2 rank) next
  ends : Uniform fun rank => (programs rank).after rounds

theorem Aligned.script {programs : Fin n → Program n κ ν φ α} (aligned : Aligned programs) :
    ∃ rounds, Script programs rounds := by
  induction aligned with
  | uniform alike => exact ⟨[], by simp, alike⟩
  | @collective site values next later ih =>
      obtain ⟨rounds, script⟩ := ih
      refine ⟨(site, values) :: rounds, ?_, script.ends⟩
      intro number round found rank
      cases number with
      | zero =>
          obtain rfl : (site, values) = round := by simpa using found
          exact ⟨next rank, rfl⟩
      | succ number => exact script.meets number round (by simpa using found) rank

theorem Uniform.finished {programs : Fin n → Program n κ ν φ α} (alike : Uniform programs)
    (rank : Fin n) : (programs rank).finished = true := by
  rcases alike with returned | ⟨stage, thrown⟩
  · obtain ⟨value, same⟩ := returned rank
    rw [same]
    rfl
  · obtain ⟨message, same⟩ := thrown rank
    rw [same]
    rfl

/-- A rank stands somewhere in the script. -/
structure Placed (program : Program n κ ν φ α) (rounds : List (κ × (Fin n → ν))) (rank : Fin n)
    (place : Rank n κ ν φ α) : Prop where
  program : place.program = program.after (rounds.take place.left)
  entered : place.entered =
    (rounds.take place.entered.length).map fun round => (round.1, round.2 rank)
  phase : place.entered.length = place.left ∧ place.left ≤ rounds.length ∨
    place.entered.length = place.left + 1 ∧ place.left < rounds.length

/-- Every rank stands somewhere in the script, and has left only what all have entered. -/
structure Follows (programs : Fin n → Program n κ ν φ α) (rounds : List (κ × (Fin n → ν)))
    (state : Fin n → Rank n κ ν φ α) : Prop where
  placed : ∀ rank, Placed (programs rank) rounds rank (state rank)
  synced : ∀ first second, (state first).left ≤ (state second).entered.length

theorem initial_follows (programs : Fin n → Program n κ ν φ α) (rounds : List (κ × (Fin n → ν))) :
    Follows programs rounds (initial programs) where
  placed := fun _ => ⟨rfl, rfl, .inl ⟨rfl, Nat.zero_le _⟩⟩
  synced := fun _ _ => le_rfl

namespace Placed

variable {program : Program n κ ν φ α} {rounds : List (κ × (Fin n → ν))} {rank : Fin n}
  {place : Rank n κ ν φ α}

theorem left_le (placed : Placed program rounds rank place) : place.left ≤ rounds.length := by
  rcases placed.phase with ⟨-, below⟩ | ⟨-, below⟩
  · exact below
  · exact below.le

theorem entered_le (placed : Placed program rounds rank place) :
    place.entered.length ≤ rounds.length := by
  rcases placed.phase with ⟨outside, below⟩ | ⟨inside, below⟩
  · exact outside ▸ below
  · exact inside ▸ below

theorem getElem?_entered (placed : Placed program rounds rank place) {number : ℕ}
    (old : number < place.entered.length) :
    place.entered[number]? = rounds[number]?.map fun round => (round.1, round.2 rank) := by
  rw [placed.entered, List.getElem?_map, List.getElem?_take_of_lt old]

theorem sites_eq (placed : Placed program rounds rank place) :
    place.sites = (rounds.take place.entered.length).map Prod.fst := by
  unfold Rank.sites
  rw [placed.entered, List.map_map, List.length_map, List.length_take,
    Nat.min_eq_left placed.entered_le]
  rfl

end Placed

namespace Follows

variable {programs : Fin n → Program n κ ν φ α} {rounds : List (κ × (Fin n → ν))}
  {state next : Fin n → Rank n κ ν φ α}

/-- A rank whose program goes on has not come to the end of the script. -/
theorem left_lt (follows : Follows programs rounds state) (script : Script programs rounds)
    (rank : Fin n) (unfinished : (state rank).program.finished = false) :
    (state rank).left < rounds.length := by
  refine lt_of_le_of_ne (follows.placed rank).left_le fun last => ?_
  have ended := script.ends.finished rank
  rw [(follows.placed rank).program, last, List.take_length] at unfinished
  exact absurd (unfinished.symm.trans ended) (by decide)

/-- A rank that has not come to the end of the script finds its next collective there. -/
theorem at_round (follows : Follows programs rounds state) (script : Script programs rounds)
    {rank : Fin n} (unfinished : (state rank).left < rounds.length) :
    ∃ round rest, rounds[(state rank).left]? = some round ∧
      (state rank).program = .collective round.1 (round.2 rank) rest := by
  have found := List.getElem?_eq_getElem unfinished
  obtain ⟨rest, same⟩ := script.meets _ _ found rank
  exact ⟨_, rest, found, (follows.placed rank).program.trans same⟩

variable [DecidableEq κ]

/-- A rank enters the next collective of the script. -/
theorem enter (follows : Follows programs rounds state) (script : Script programs rounds)
    {rank : Fin n} (taken : step state (.enter rank) = some next) :
    Follows programs rounds next := by
  cases at_program : (state rank).program with
  | done value | throw stage message => simp [step, at_program] at taken
  | collective site value rest =>
      simp only [step, at_program, Option.ite_none_right_eq_some, Option.some.injEq] at taken
      obtain ⟨outside, rfl⟩ := taken
      have below := follows.left_lt script rank (by rw [at_program]; rfl)
      obtain ⟨round, rest', found, same⟩ := follows.at_round script below
      have here := (follows.placed rank).program
      rw [at_program] at same here
      obtain ⟨rfl, rfl, -⟩ := Program.collective.inj same
      have grown : ∀ peer, (state peer).left = (Function.update state rank
          ⟨.collective round.1 (round.2 rank) rest,
            (state rank).entered ++ [(round.1, round.2 rank)], (state rank).left⟩ peer).left ∧
          (state peer).entered.length ≤ (Function.update state rank
          ⟨.collective round.1 (round.2 rank) rest,
            (state rank).entered ++ [(round.1, round.2 rank)],
              (state rank).left⟩ peer).entered.length := by
        refine (Function.forall_update_iff state fun peer (place : Rank n κ ν φ α) =>
          (state peer).left = place.left ∧
            (state peer).entered.length ≤ place.entered.length).mpr ⟨⟨rfl, ?_⟩, ?_⟩
        · simp
        · exact fun peer _ => ⟨rfl, le_rfl⟩
      refine ⟨?_, ?_⟩
      · refine (Function.forall_update_iff state fun peer =>
          Placed (programs peer) rounds peer).mpr ⟨⟨here, ?_, .inr ⟨?_, below⟩⟩, ?_⟩
        · have old := (follows.placed rank).entered
          simp only [List.length_append, List.length_singleton, outside] at old ⊢
          rw [List.take_add_one, found, Option.toList_some, List.map_append, ← old]
          rfl
        · simp [outside]
        · exact fun peer _ => follows.placed peer
      · intro first second
        rw [← (grown first).1]
        exact (follows.synced first second).trans (grown second).2

/-- The values of a collective everybody has entered are those of the script. -/
theorem contributions_eq (follows : Follows programs rounds state) {number : ℕ} {site : κ}
    (met : Met state number site) {round : κ × (Fin n → ν)} (found : rounds[number]? = some round)
    (default : ν) : contributions state number default = round.2 := by
  funext rank
  have old : number < (state rank).entered.length := by
    have inside := (List.getElem?_eq_some_iff.mp (met rank)).1
    rwa [Rank.sites, List.length_map] at inside
  rw [contributions, (follows.placed rank).getElem?_entered old, found]
  rfl

/-- A rank leaves a collective of the script. -/
theorem leave (follows : Follows programs rounds state) (script : Script programs rounds)
    {rank : Fin n} (taken : step state (.leave rank) = some next) :
    Follows programs rounds next := by
  cases at_program : (state rank).program with
  | done value | throw stage message => simp [step, at_program] at taken
  | collective site value rest =>
      simp only [step, at_program, Option.ite_none_right_eq_some, Option.some.injEq] at taken
      obtain ⟨⟨inside, met⟩, rfl⟩ := taken
      have below := follows.left_lt script rank (by rw [at_program]; rfl)
      have found := List.getElem?_eq_getElem below
      have everyone : ∀ peer, (state rank).left + 1 ≤ (state peer).entered.length := by
        intro peer
        have entered := (List.getElem?_eq_some_iff.mp (met peer)).1
        rwa [Rank.sites, List.length_map] at entered
      have same : ∀ peer, (Function.update state rank
          ⟨rest (contributions state (state rank).left value), (state rank).entered,
            (state rank).left + 1⟩ peer).entered = (state peer).entered :=
        (Function.forall_update_iff state fun peer (place : Rank n κ ν φ α) =>
          place.entered = (state peer).entered).mpr ⟨rfl, fun _ _ => rfl⟩
      refine ⟨?_, ?_⟩
      · refine (Function.forall_update_iff state fun peer =>
          Placed (programs peer) rounds peer).mpr
            ⟨⟨?_, (follows.placed rank).entered, .inl ⟨inside, below⟩⟩, ?_⟩
        · have here := (follows.placed rank).program
          rw [Program.after] at here
          rw [follows.contributions_eq met found, List.take_add_one, found, Option.toList_some,
            Program.after, List.foldl_append, ← here, at_program]
          rfl
        · exact fun peer _ => follows.placed peer
      · intro first second
        rw [same]
        refine (Function.forall_update_iff state fun _ (place : Rank n κ ν φ α) =>
          place.left ≤ (state second).entered.length).mpr ⟨everyone second, ?_⟩ first
        exact fun peer _ => follows.synced peer second

theorem step (follows : Follows programs rounds state) (script : Script programs rounds)
    {label : Label n} (taken : Spmd.step state label = some next) :
    Follows programs rounds next := by
  cases label with
  | enter rank => exact follows.enter script taken
  | leave rank => exact follows.leave script taken

theorem of_reachable (script : Script programs rounds)
    (reach : Reachable Spmd.step (initial programs) state) : Follows programs rounds state :=
  reach.invariant (Follows programs rounds) (fun _ _ _ follows taken => follows.step script taken)
    (initial_follows programs rounds)

/-- Some rank can move until all have come to the end of the script. -/
theorem end_of_stuck (follows : Follows programs rounds state) (script : Script programs rounds)
    (stuck : ∀ label, Spmd.step state label = none) (rank : Fin n) :
    (state rank).left = rounds.length := by
  by_contra unfinished
  have nonempty : Nonempty (Fin n) := ⟨rank⟩
  -- A rank that has left the fewest collectives is never the one to wait.
  obtain ⟨slow, slowest⟩ := Finite.exists_min fun peer => (state peer).left
  have below : (state slow).left < rounds.length :=
    (slowest rank).trans_lt (lt_of_le_of_ne (follows.placed rank).left_le unfinished)
  have outside_stuck : ∀ peer, (state peer).left < rounds.length →
      (state peer).entered.length ≠ (state peer).left := by
    intro peer short outside
    obtain ⟨round, rest, -, program⟩ := follows.at_round script short
    have blocked := stuck (.enter peer)
    simp [Spmd.step, program, outside] at blocked
  have everyone : ∀ peer, (state slow).left < (state peer).entered.length := by
    intro peer
    refine lt_of_le_of_ne (follows.synced slow peer) fun same => ?_
    have slow_too := slowest peer
    rcases (follows.placed peer).phase with ⟨outside, -⟩ | ⟨inside, -⟩
    · exact outside_stuck peer (by omega) outside
    · omega
  obtain ⟨round, rest, found, program⟩ := follows.at_round script below
  have inside : (state slow).entered.length = (state slow).left + 1 := by
    rcases (follows.placed slow).phase with ⟨outside, -⟩ | ⟨inside, -⟩
    · exact absurd outside (outside_stuck slow below)
    · exact inside
  have met : Met state (state slow).left round.1 := by
    intro peer
    rw [Rank.sites, List.getElem?_map, (follows.placed peer).getElem?_entered (everyone peer),
      found]
    rfl
  have blocked := stuck (.leave slow)
  simp [Spmd.step, program, inside, met] at blocked

end Follows

/-- Moves made so far. -/
def moves (state : Fin n → Rank n κ ν φ α) : ℕ :=
  ∑ rank, ((state rank).entered.length + (state rank).left)

/-- Every move counts. -/
theorem moves_step [DecidableEq κ] {state next : Fin n → Rank n κ ν φ α} {label : Label n}
    (taken : step state label = some next) : moves next = moves state + 1 := by
  have one_more : ∀ rank (place : Rank n κ ν φ α),
      place.entered.length + place.left = (state rank).entered.length + (state rank).left + 1 →
      moves (Function.update state rank place) = moves state + 1 := by
    intro rank place counted
    simp only [moves]
    rw [← Finset.add_sum_erase _ _ (Finset.mem_univ rank),
      ← Finset.add_sum_erase (Finset.univ) (fun peer => (state peer).entered.length +
        (state peer).left) (Finset.mem_univ rank), Function.update_self, counted]
    have others : ∀ peer ∈ Finset.univ.erase rank,
        (Function.update state rank place peer).entered.length +
          (Function.update state rank place peer).left =
        (state peer).entered.length + (state peer).left := by
      intro peer member
      rw [Function.update_of_ne (Finset.ne_of_mem_erase member)]
    rw [Finset.sum_congr rfl others]
    omega
  cases label with
  | enter rank =>
      cases at_program : (state rank).program with
      | done value | throw stage message => simp [step, at_program] at taken
      | collective site value rest =>
          simp only [step, at_program, Option.ite_none_right_eq_some, Option.some.injEq] at taken
          obtain ⟨-, rfl⟩ := taken
          refine one_more rank _ ?_
          simp only [List.length_append, List.length_singleton]
          omega
  | leave rank =>
      cases at_program : (state rank).program with
      | done value | throw stage message => simp [step, at_program] at taken
      | collective site value rest =>
          simp only [step, at_program, Option.ite_none_right_eq_some, Option.some.injEq] at taken
          obtain ⟨-, rfl⟩ := taken
          exact one_more rank _ rfl

theorem moves_exec [DecidableEq κ] {state final : Fin n → Rank n κ ν φ α} {labels : List (Label n)}
    (execution : exec step state labels = some final) :
    moves final = moves state + labels.length := by
  induction labels generalizing state with
  | nil =>
      obtain rfl : state = final := by simpa using execution
      rfl
  | cons label labels ih =>
      rw [exec_cons] at execution
      obtain ⟨next, taken, rest⟩ := Option.bind_eq_some_iff.mp execution
      rw [ih rest, moves_step taken, List.length_cons]
      omega

/-- Aligned programs never leave a rank behind. -/
theorem Aligned.lockstep [DecidableEq κ] {programs : Fin n → Program n κ ν φ α}
    (aligned : Aligned programs) : Lockstep programs := by
  obtain ⟨rounds, script⟩ := aligned.script
  have prefixes : ∀ first second : ℕ, first ≤ second →
      (rounds.take first).map Prod.fst <+: (rounds.take second).map Prod.fst :=
    fun first second below => (List.take_prefix_take_left below).map _
  refine ⟨?_, ?_, ⟨n * (2 * rounds.length), ?_⟩, ?_⟩
  · intro state reach first second
    have follows := Follows.of_reachable script reach
    rw [(follows.placed first).sites_eq, (follows.placed second).sites_eq]
    exact (le_total _ _).imp (prefixes _ _) (prefixes _ _)
  · intro state reach rank finished peer
    have follows := Follows.of_reachable script reach
    have last : rounds.length ≤ (state rank).left := by
      by_contra unfinished
      obtain ⟨round, rest, -, program⟩ := follows.at_round script (not_le.mp unfinished)
      rw [program] at finished
      cases finished
    rw [(follows.placed peer).sites_eq, (follows.placed rank).sites_eq]
    exact prefixes _ _ (((follows.placed peer).entered_le.trans last).trans
      (follows.synced rank rank))
  · intro labels state execution
    have follows := Follows.of_reachable script ⟨labels, execution⟩
    have counted := moves_exec execution
    have start : moves (initial programs) = 0 := by simp [moves, initial]
    have most : moves state ≤ ∑ _rank : Fin n, 2 * rounds.length := by
      refine Finset.sum_le_sum fun rank _ => ?_
      have entered := (follows.placed rank).entered_le
      have left := (follows.placed rank).left_le
      omega
    rw [Finset.sum_const, Finset.card_univ, Fintype.card_fin, Nat.nsmul_eq_mul] at most
    omega
  · intro state reach stuck
    have follows := Follows.of_reachable script reach
    have same : (fun rank => (state rank).program) = fun rank => (programs rank).after rounds := by
      funext rank
      rw [(follows.placed rank).program, follows.end_of_stuck script stuck rank, List.take_length]
    rw [same]
    exact script.ends

/-! ### Programs that stay in lockstep are aligned -/

section

variable [DecidableEq κ] {programs : Fin n → Program n κ ν φ α} {sites : Fin n → κ} {site : κ}
  {values : Fin n → ν} {next : Fin n → (Fin n → ν) → Program n κ ν φ α}

/-- These ranks have entered their first collective. -/
def entering (programs : Fin n → Program n κ ν φ α) (sites : Fin n → κ) (values : Fin n → ν)
    (inside : Finset (Fin n)) : Fin n → Rank n κ ν φ α :=
  fun rank =>
    if rank ∈ inside then ⟨programs rank, [(sites rank, values rank)], 0⟩
    else ⟨programs rank, [], 0⟩

theorem reachable_entering (inside : Finset (Fin n))
    (first : ∀ rank ∈ inside, programs rank = .collective (sites rank) (values rank) (next rank)) :
    Reachable step (initial programs) (entering programs sites values inside) := by
  induction inside using Finset.induction_on with
  | empty => exact ⟨[], congrArg some (funext fun rank => by simp [entering, initial])⟩
  | insert rank inside fresh ih =>
      have earlier := ih fun peer member => first peer (Finset.mem_insert_of_mem member)
      refine Reachable.extend earlier (?_ : step _ (.enter rank) = _)
      have here : entering programs sites values inside rank = ⟨programs rank, [], 0⟩ :=
        if_neg fresh
      simp only [step, here, first rank (Finset.mem_insert_self _ _), List.length_nil, if_true]
      congr 1
      funext peer
      rcases eq_or_ne peer rank with rfl | other
      · simp [entering, first peer (Finset.mem_insert_self _ _)]
      · simp [entering, other]

/-- Everybody has entered the first collective, and these ranks have left it. -/
def leaving (programs : Fin n → Program n κ ν φ α) (site : κ) (values : Fin n → ν)
    (next : Fin n → (Fin n → ν) → Program n κ ν φ α) (outside : Finset (Fin n)) :
    Fin n → Rank n κ ν φ α :=
  fun rank =>
    if rank ∈ outside then ⟨next rank values, [(site, values rank)], 1⟩
    else ⟨programs rank, [(site, values rank)], 0⟩

theorem reachable_leaving (outside : Finset (Fin n))
    (first : ∀ rank, programs rank = .collective site (values rank) (next rank)) :
    Reachable step (initial programs) (leaving programs site values next outside) := by
  induction outside using Finset.induction_on with
  | empty =>
      have same : leaving programs site values next ∅ =
          entering programs (fun _ => site) values Finset.univ := by
        funext rank
        simp [entering, leaving]
      rw [same]
      exact reachable_entering Finset.univ fun rank _ => first rank
  | insert rank outside fresh ih =>
      refine Reachable.extend ih (?_ : step _ (.leave rank) = _)
      have here : leaving programs site values next outside rank =
          ⟨programs rank, [(site, values rank)], 0⟩ := if_neg fresh
      have entered : ∀ peer, (leaving programs site values next outside peer).entered =
          [(site, values peer)] := by
        intro peer
        unfold leaving
        split_ifs
        · rfl
        · rfl
      have met : Met (leaving programs site values next outside) 0 site := by
        intro peer
        simp [Rank.sites, entered]
      have contributed : ∀ default,
          contributions (leaving programs site values next outside) 0 default = values := by
        intro default
        funext peer
        simp [contributions, entered]
      simp only [step, here, first rank, List.length_singleton, Nat.zero_add, true_and, if_pos met,
        contributed]
      congr 1
      funext peer
      rcases eq_or_ne peer rank with rfl | other
      · simp [leaving]
      · simp [leaving, other]

/-- A rank that had entered and left one more collective before. -/
def Rank.later (rank : Rank n κ ν φ α) (site : κ) (value : ν) : Rank n κ ν φ α :=
  ⟨rank.program, (site, value) :: rank.entered, rank.left + 1⟩

theorem step_later (state : Fin n → Rank n κ ν φ α) (label : Label n) :
    step (fun rank => (state rank).later site (values rank)) label =
      (step state label).map fun next rank => (next rank).later site (values rank) := by
  have updated : ∀ (rank : Fin n) (place : Rank n κ ν φ α),
      Function.update (fun peer => (state peer).later site (values peer)) rank
          (place.later site (values rank)) =
        fun peer => (Function.update state rank place peer).later site (values peer) := by
    intro rank place
    funext peer
    rcases eq_or_ne peer rank with rfl | other
    · simp
    · simp [other]
  cases label with
  | enter rank =>
      cases at_program : (state rank).program with
      | done value | throw stage message => simp [step, Rank.later, at_program]
      | collective site' value rest =>
          simp only [step, Rank.later, at_program, List.length_cons, Nat.add_right_cancel_iff]
          split_ifs
          · exact congrArg some (updated rank
              ⟨.collective site' value rest, (state rank).entered ++ [(site', value)],
                (state rank).left⟩)
          · rfl
  | leave rank =>
      cases at_program : (state rank).program with
      | done value | throw stage message => simp [step, Rank.later, at_program]
      | collective site' value rest =>
          have met : Met (fun rank => (state rank).later site (values rank))
              ((state rank).left + 1) site' ↔ Met state (state rank).left site' := by
            simp [Met, Rank.sites, Rank.later]
          have contributed : contributions (fun rank => (state rank).later site (values rank))
              ((state rank).left + 1) value = contributions state (state rank).left value := by
            funext peer
            simp [contributions, Rank.later]
          simp only [Rank.later] at met contributed
          simp only [step, Rank.later, at_program, List.length_cons, Nat.add_right_cancel_iff, met,
            contributed]
          split_ifs
          · exact congrArg some (updated rank
              ⟨rest (contributions state (state rank).left value), (state rank).entered,
                (state rank).left + 1⟩)
          · rfl

theorem exec_later {state final : Fin n → Rank n κ ν φ α} {labels : List (Label n)}
    (execution : exec step state labels = some final) :
    exec step (fun rank => (state rank).later site (values rank)) labels =
      some fun rank => (final rank).later site (values rank) := by
  induction labels generalizing state with
  | nil =>
      obtain rfl : state = final := by simpa using execution
      rfl
  | cons label labels ih =>
      rw [exec_cons] at execution ⊢
      obtain ⟨next, taken, rest⟩ := Option.bind_eq_some_iff.mp execution
      rw [step_later, taken, Option.map_some, Option.bind_some]
      exact ih rest

/-- Whatever the programs do after a common collective, they do in some run. -/
theorem exec_after {state : Fin n → Rank n κ ν φ α} {labels : List (Label n)}
    (first : ∀ rank, programs rank = .collective site (values rank) (next rank))
    (execution : exec step (initial fun rank => next rank values) labels = some state) :
    ∃ before, exec step (initial programs) (before ++ labels) =
      some fun rank => (state rank).later site (values rank) := by
  obtain ⟨before, entered⟩ := reachable_leaving Finset.univ first
  have all_out : leaving programs site values next Finset.univ =
      fun rank => (initial (fun rank => next rank values) rank).later site (values rank) := by
    funext rank
    simp [leaving, initial, Rank.later]
  exact ⟨before, by rw [exec_append, entered, Option.bind_some, all_out, exec_later execution]⟩

theorem reachable_later {state : Fin n → Rank n κ ν φ α}
    (first : ∀ rank, programs rank = .collective site (values rank) (next rank))
    (reach : Reachable step (initial fun rank => next rank values) state) :
    Reachable step (initial programs) fun rank => (state rank).later site (values rank) := by
  obtain ⟨labels, execution⟩ := reach
  obtain ⟨before, whole⟩ := exec_after first execution
  exact ⟨before ++ labels, whole⟩

omit [DecidableEq κ] in
theorem Rank.sites_later (rank : Rank n κ ν φ α) (site : κ) (value : ν) :
    (rank.later site value).sites = site :: rank.sites := rfl

/-- Lockstep goes on after a common collective. -/
theorem Lockstep.later (lockstep : Lockstep programs)
    (first : ∀ rank, programs rank = .collective site (values rank) (next rank)) :
    Lockstep fun rank => next rank values where
  agree := by
    intro state reach one other
    have agreed := lockstep.agree _ (reachable_later first reach) one other
    simpa only [Rank.sites_later, List.prefix_cons_inj] using agreed
  complete := by
    intro state reach rank finished peer
    have all := lockstep.complete _ (reachable_later first reach) rank finished peer
    simpa only [Rank.sites_later, List.prefix_cons_inj] using all
  bounded := by
    obtain ⟨bound, bounded⟩ := lockstep.bounded
    refine ⟨bound, fun labels state execution => ?_⟩
    obtain ⟨before, whole⟩ := exec_after first execution
    have within := bounded _ _ whole
    rw [List.length_append] at within
    omega
  unstranded := by
    intro state reach stuck
    refine lockstep.unstranded (fun rank => (state rank).later site (values rank))
      (reachable_later first reach) fun label => ?_
    rw [step_later, stuck label, Option.map_none]

/-- A rank that finishes without a collective leaves nobody in one. -/
theorem Lockstep.finished_of_finished (lockstep : Lockstep programs) (rank peer : Fin n)
    (finished : (programs rank).finished = true) : (programs peer).finished = true := by
  cases at_peer : programs peer with
  | done value | throw stage message => rfl
  | collective site value rest =>
      exfalso
      have apart : rank ≠ peer := by
        rintro rfl
        rw [at_peer] at finished
        cases finished
      have alone : ∀ member ∈ ({peer} : Finset (Fin n)),
          programs member = .collective site value rest := by
        simp [at_peer]
      have entered : Reachable step (initial programs)
          (entering programs (fun _ => site) (fun _ => value) {peer}) :=
        reachable_entering {peer} alone
      have all := lockstep.complete _ entered rank (by simpa [entering, apart] using finished) peer
      simp [entering, apart, Rank.sites] at all

/-- The first collective is the same for all. -/
theorem Lockstep.same_site (lockstep : Lockstep programs)
    (first : ∀ rank, programs rank = .collective (sites rank) (values rank) (next rank))
    (rank peer : Fin n) : sites rank = sites peer := by
  have entered := reachable_entering Finset.univ fun rank _ => first rank
  have agreed := lockstep.agree _ entered rank peer
  simp only [entering, Finset.mem_univ, if_true, Rank.sites, List.map_cons, List.map_nil] at agreed
  rcases agreed with before | after
  · exact (List.cons_prefix_cons.mp before).1
  · exact (List.cons_prefix_cons.mp after).1.symm

/-- When no rank has a collective ahead, nothing moves. -/
theorem Lockstep.uniform (lockstep : Lockstep programs)
    (finished : ∀ rank, (programs rank).finished = true) : Uniform programs := by
  refine lockstep.unstranded _ ⟨[], rfl⟩ fun label => ?_
  have no_collective : ∀ rank site value rest,
      programs rank ≠ .collective site value rest := by
    intro rank site value rest same
    have ended := finished rank
    rw [same] at ended
    cases ended
  cases label with
  | enter rank | leave rank =>
      cases at_rank : programs rank with
      | done value | throw stage message => simp [step, initial, at_rank]
      | collective site value rest => exact absurd at_rank (no_collective _ _ _ _)

/-- Programs that never leave a rank behind are aligned. -/
theorem Lockstep.aligned (root : Fin n) (lockstep : Lockstep programs) : Aligned programs := by
  induction at_root : programs root generalizing programs with
  | done value | throw stage message =>
      refine .uniform (lockstep.uniform fun rank => ?_)
      exact lockstep.finished_of_finished root rank (by rw [at_root]; rfl)
  | collective site value rest ih =>
      have collectives : ∀ rank, ∃ site value next,
          programs rank = .collective site value next := by
        intro rank
        cases at_rank : programs rank with
        | collective site value rest => exact ⟨site, value, rest, rfl⟩
        | done value | throw stage message =>
            have ended := lockstep.finished_of_finished rank root (by rw [at_rank]; rfl)
            rw [at_root] at ended
            cases ended
      choose sites values next first using collectives
      have here := (first root).symm.trans at_root
      obtain ⟨site_eq, -, rest_eq⟩ := Program.collective.inj here
      have common : ∀ rank, programs rank = .collective site (values rank) (next rank) := by
        intro rank
        rw [first rank, lockstep.same_site first rank root, site_eq]
      have later := ih values (lockstep.later common) (congrFun rest_eq values)
      rw [funext common]
      exact .collective later

/-- No interleaving leaves a rank behind exactly when the programs are aligned. -/
theorem lockstep_iff_aligned (root : Fin n) : Lockstep programs ↔ Aligned programs :=
  ⟨fun lockstep => lockstep.aligned root, Aligned.lockstep⟩

end

/-! ### Aligning programs step by step -/

theorem aligned_done (values : Fin n → α) :
    Aligned fun rank => (.done (values rank) : Program n κ ν φ α) :=
  .uniform (.inl fun rank => ⟨values rank, rfl⟩)

theorem aligned_throw (stage : φ) (messages : Fin n → String) :
    Aligned fun rank => (.throw stage (messages rank) : Program n κ ν φ α) :=
  .uniform (.inr ⟨stage, fun rank => ⟨messages rank, rfl⟩⟩)

/-- A common collective aligns what comes after it, and nothing else. -/
theorem aligned_collective [DecidableEq κ] (root : Fin n) {site : κ} {values : Fin n → ν}
    {next : Fin n → (Fin n → ν) → Program n κ ν φ α} :
    (Aligned fun rank => .collective site (values rank) (next rank)) ↔
      Aligned fun rank => next rank values := by
  refine ⟨fun aligned => ?_, .collective⟩
  exact (aligned.lockstep.later fun _ => rfl).aligned root

/-- Programs of which one throws before a collective that another one enters are not aligned. -/
theorem not_aligned_of_throw {programs : Fin n → Program n κ ν φ α} {rank peer : Fin n} {stage : φ}
    {message : String} {site : κ} {value : ν} {next : (Fin n → ν) → Program n κ ν φ α}
    (thrown : programs rank = .throw stage message)
    (entered : programs peer = .collective site value next) : ¬ Aligned programs := by
  intro aligned
  cases aligned with
  | uniform alike =>
      have ended := alike.finished peer
      rw [entered] at ended
      cases ended
  | collective later => cases thrown

end

end Spmd
