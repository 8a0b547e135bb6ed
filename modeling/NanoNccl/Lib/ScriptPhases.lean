import Mathlib.Data.List.Nodup
import NanoNccl.Lib.Scripts

/-!
# Scripts made of phases

A script that does one thing after the other with all of its ports: what it puts on a port and gets
from it can be read off phase by phase, and within a phase from the item the port belongs to.
-/

namespace Scripts

variable {ι β κ α γ : Type*}

/-! ### Phases -/

theorem le_of_mem_ofPhases {first : ℕ} {phases : List (List (Op ι β κ))} {entry : ℕ × Op ι β κ}
    (member : entry ∈ ofPhases first phases) : first ≤ entry.1 := by
  induction phases generalizing first with
  | nil => cases member
  | cons ops phases ih =>
      rcases List.mem_append.mp member with now | later
      · obtain ⟨op, -, rfl⟩ := List.mem_map.mp now
        exact Nat.le_refl _
      · exact Nat.le_of_succ_le (ih later)

theorem sorted_ofPhases (first : ℕ) (phases : List (List (Op ι β κ))) :
    (ofPhases first phases).Pairwise fun earlier later => earlier.1 ≤ later.1 := by
  induction phases generalizing first with
  | nil => exact List.Pairwise.nil
  | cons ops phases ih =>
      refine List.pairwise_append.mpr ⟨?_, ih (first + 1), fun earlier now later after => ?_⟩
      · exact List.pairwise_map.mpr (List.pairwise_of_forall fun _ _ => Nat.le_refl _)
      · obtain ⟨op, -, rfl⟩ := List.mem_map.mp now
        exact Nat.le_of_succ_le (le_of_mem_ofPhases after)

theorem mem_ofPhases {first : ℕ} {phases : List (List (Op ι β κ))} {entry : ℕ × Op ι β κ} :
    entry ∈ ofPhases first phases ↔
      ∃ k ops, phases[k]? = some ops ∧ entry.1 = first + k ∧ entry.2 ∈ ops := by
  induction phases generalizing first with
  | nil => simp [ofPhases]
  | cons ops phases ih =>
      rw [ofPhases, List.mem_append, ih]
      constructor
      · rintro (now | ⟨k, other, here, phase, member⟩)
        · obtain ⟨op, member, rfl⟩ := List.mem_map.mp now
          exact ⟨0, ops, rfl, rfl, member⟩
        · exact ⟨k + 1, other, here, by omega, member⟩
      · rintro ⟨k, other, here, phase, member⟩
        cases k with
        | zero =>
            obtain rfl : ops = other := Option.some.inj here
            exact .inl (List.mem_map.mpr ⟨entry.2, member, Prod.ext phase.symm rfl⟩)
        | succ k => exact .inr ⟨k, other, here, by omega, member⟩

/-- What a script has behind it in the middle of a phase. -/
theorem take_ofPhases {first : ℕ} {phases : List (List (Op ι β κ))} {k phase : ℕ} {op : Op ι β κ}
    (here : (ofPhases first phases)[k]? = some (phase, op)) :
    ∃ j ops, first ≤ phase ∧ phases[phase - first]? = some ops ∧ ops[j]? = some op ∧
      (ofPhases first phases).take k =
        ofPhases first (phases.take (phase - first)) ++ (ops.take j).map (phase, ·) := by
  induction phases generalizing first k with
  | nil => cases here
  | cons ops phases ih =>
      rw [ofPhases] at here
      by_cases now : k < (ops.map ((first, ·) : Op ι β κ → ℕ × Op ι β κ)).length
      · rw [List.getElem?_append_left now, List.getElem?_map] at here
        obtain ⟨found, at_k, same⟩ := Option.map_eq_some_iff.mp here
        obtain ⟨rfl, rfl⟩ := Prod.mk.inj same
        refine ⟨k, ops, Nat.le_refl _, by simp, at_k, ?_⟩
        rw [Nat.sub_self, List.take_zero, ofPhases, ofPhases,
          List.take_append_of_le_length (Nat.le_of_lt now), List.map_take, List.nil_append]
      · have later : ops.length ≤ k := by simpa using now
        rw [List.getElem?_append_right (by simpa using later), List.length_map] at here
        obtain ⟨j, other, after, found, at_j, taken⟩ := ih here
        have step : phase - first = phase - (first + 1) + 1 := by omega
        refine ⟨j, other, by omega, by rw [step]; exact found, at_j, ?_⟩
        rw [step, List.take_succ_cons, ofPhases, ofPhases, List.take_append, List.length_map,
          List.take_of_length_le (by simpa using later), taken, List.append_assoc]

section Ports

variable [DecidableEq ι] (port : ι)

/-- The byte an instruction puts on a port. -/
def Op.putAt : Op ι β κ → Option β
  | .put other byte => if other = port then some byte else none
  | .get _ | .work _ => none

/-- The instruction gets a byte from a port. -/
def Op.getAt : Op ι β κ → Option Unit
  | .get other => if other = port then some () else none
  | .put _ _ | .work _ => none

/-- Bytes that instructions put on a port. -/
def putBytes (ops : List (Op ι β κ)) : List β := ops.filterMap (Op.putAt port)

/-- How many bytes instructions get from a port. -/
def getCount (ops : List (Op ι β κ)) : ℕ := (ops.filterMap (Op.getAt port)).length

variable {port}

theorem putsAt_map (phase : ℕ) (ops : List (Op ι β κ)) :
    putsAt port (ops.map (phase, ·)) = (putBytes port ops).map (phase, ·) := by
  induction ops with
  | nil => rfl
  | cons op ops ih =>
      have split : putsAt port ((op :: ops).map (phase, ·)) =
          putsAt port [(phase, op)] ++ putsAt port (ops.map (phase, ·)) :=
        putsAt_append port [(phase, op)] _
      rw [split, ih, putBytes, putBytes, List.filterMap_cons]
      cases op with
      | put other byte => by_cases same : other = port <;> simp [Op.putAt, same]
      | get => rfl
      | work => rfl

theorem getsAt_map (phase : ℕ) (ops : List (Op ι β κ)) :
    getsAt port (ops.map (phase, ·)) = List.replicate (getCount port ops) phase := by
  induction ops with
  | nil => rfl
  | cons op ops ih =>
      have split : getsAt port ((op :: ops).map (phase, ·)) =
          getsAt port [(phase, op)] ++ getsAt port (ops.map (phase, ·)) :=
        getsAt_append port [(phase, op)] _
      rw [split, ih, getCount, getCount, List.filterMap_cons]
      cases op with
      | get other =>
          by_cases same : other = port <;> simp [Op.getAt, same, List.replicate_succ]
      | put => rfl
      | work => rfl

theorem putsAt_ofPhases (first : ℕ) (ops : List (Op ι β κ)) (phases : List (List (Op ι β κ))) :
    putsAt port (ofPhases first (ops :: phases)) =
      (putBytes port ops).map (first, ·) ++ putsAt port (ofPhases (first + 1) phases) := by
  rw [ofPhases, putsAt_append, putsAt_map]

theorem getsAt_ofPhases (first : ℕ) (ops : List (Op ι β κ)) (phases : List (List (Op ι β κ))) :
    getsAt port (ofPhases first (ops :: phases)) =
      List.replicate (getCount port ops) first ++ getsAt port (ofPhases (first + 1) phases) := by
  rw [ofPhases, getsAt_append, getsAt_map]

end Ports

/-! ### Items -/

section Items

variable {items : List α} {key : α → ι} {port : ι} {f : α → List (Op ι β κ)}
  {g : Op ι β κ → Option γ}

theorem filterMap_flatMap_of_notMem (other : ∀ item ∈ items, key item ≠ port →
      (f item).filterMap g = []) (absent : port ∉ items.map key) :
    (items.flatMap f).filterMap g = [] := by
  rw [List.filterMap_flatMap, List.flatMap_eq_nil_iff]
  exact fun item member => other item member fun named =>
    absent (named ▸ List.mem_map_of_mem member)

/-- Among items with ports of their own only one concerns a port. -/
theorem filterMap_flatMap_of_mem (nodup : (items.map key).Nodup)
    (other : ∀ item ∈ items, key item ≠ port → (f item).filterMap g = []) {item : α}
    (member : item ∈ items) (named : key item = port) :
    (items.flatMap f).filterMap g = (f item).filterMap g := by
  induction items with
  | nil => cases member
  | cons first items ih =>
      rw [List.map_cons, List.nodup_cons] at nodup
      have others : ∀ item ∈ items, key item ≠ port → (f item).filterMap g = [] :=
        fun item inside => other item (List.mem_cons_of_mem _ inside)
      rw [List.flatMap_cons, List.filterMap_append]
      rcases List.mem_cons.mp member with rfl | inside
      · rw [filterMap_flatMap_of_notMem others (named ▸ nodup.1), List.append_nil]
      · have apart : key first ≠ port := fun same =>
          nodup.1 (same.trans named.symm ▸ List.mem_map_of_mem inside)
        rw [other first List.mem_cons_self apart, List.nil_append, ih nodup.2 others inside]

end Items

end Scripts
