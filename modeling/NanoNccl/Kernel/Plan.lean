import Mathlib.Tactic
import NanoNccl.Kernel.Ring

/-!
# Plans: schedules with logical time and expected data

A plan lists the slice operations of a block together with a logical time and with the data the
operation receives and produces when the ring works. A pass of a kernel is a sequence of rounds;
what a rank sends in one round its successor receives in the next. The lemmas here turn that
round-by-round agreement into agreement of the whole streams of an edge.
-/

namespace NanoNccl

variable {α : Type*}

/-- A slice operation with its logical time and the data that belongs to it. -/
structure Entry (α : Type*) where
  /-- The slice operation. -/
  op : SliceOp
  /-- Payload bytes of the slice. -/
  bytes : ℕ
  /-- Logical time. -/
  time : ℕ
  /-- Data expected in the receive slot. -/
  recv : ℕ → α
  /-- Data produced, for the send slot and the output. -/
  sent : ℕ → α

/-- One call of a primitive on a whole chunk. -/
structure Round (α : Type*) where
  /-- The primitive. -/
  prim : Prim
  /-- First input element of the chunk. -/
  src : ℕ
  /-- First output element of the chunk. -/
  dst : ℕ
  /-- Elements of the chunk. -/
  work : ℕ
  /-- Data expected from the predecessor. -/
  recv : ℕ → α
  /-- Data produced. -/
  sent : ℕ → α

/-- Slices on their way out of a block: logical time of their reception, bytes and data. -/
def outgoing (entries : List (Entry α)) : List (ℕ × ℕ × (ℕ → α)) :=
  entries.flatMap fun entry =>
    if entry.op.prim.sends then [(entry.time + 2, entry.bytes, entry.sent)] else []

/-- Slices on their way into a block. -/
def incoming (entries : List (Entry α)) : List (ℕ × ℕ × (ℕ → α)) :=
  entries.flatMap fun entry =>
    if entry.op.prim.recvs then [(entry.time, entry.bytes, entry.recv)] else []

namespace Round

/-- Slices of the chunk; the plain copy is not sliced. -/
def cut (dtype : DType) (stepElems : ℕ) (round : Round α) : List (ℕ × ℕ) :=
  if round.prim = .copyWorker then [(0, round.work)] else slices dtype stepElems round.work

/-- Entries of the slices of a round at logical time `2 * time`. -/
def entries (dtype : DType) (stepElems time : ℕ) (round : Round α) : List (Entry α) :=
  (round.cut dtype stepElems).zipIdx.map fun ((offset, work), index) =>
    { op := { prim := round.prim, src := round.src + offset, dst := round.dst + offset, work }
      bytes := work * dtype.size
      time := 2 * time + index
      recv := fun i => round.recv (offset + i)
      sent := fun i => round.sent (offset + i) }

/-- A round of one rank feeds the next round of its successor. -/
structure Feeds (left right : Round α) : Prop where
  agree : left.prim.sends = right.prim.recvs
  work : left.prim.sends = true → left.work = right.work
  data : left.prim.sends = true → left.sent = right.recv

end Round

/-- Entries of one pass of `rounds` rounds. -/
def passEntries (dtype : DType) (stepElems rounds : ℕ) (round : ℕ → Round α) (pass : ℕ) :
    List (Entry α) :=
  (List.range rounds).flatMap fun p =>
    (round p).entries dtype stepElems (pass * rounds + p)

/-- Entries of the passes at the given element offsets. -/
def planEntries (dtype : DType) (stepElems rounds : ℕ) (round : ℕ → ℕ → Round α)
    (offsets : List ℕ) : List (Entry α) :=
  offsets.zipIdx.flatMap fun (offset, pass) =>
    passEntries dtype stepElems rounds (round offset) pass

/-! ## Streams -/

@[simp] theorem outgoing_nil : outgoing ([] : List (Entry α)) = [] := rfl

@[simp] theorem incoming_nil : incoming ([] : List (Entry α)) = [] := rfl

theorem outgoing_cons (entry : Entry α) (entries : List (Entry α)) :
    outgoing (entry :: entries) =
      (if entry.op.prim.sends then [(entry.time + 2, entry.bytes, entry.sent)] else []) ++
        outgoing entries := rfl

theorem incoming_cons (entry : Entry α) (entries : List (Entry α)) :
    incoming (entry :: entries) =
      (if entry.op.prim.recvs then [(entry.time, entry.bytes, entry.recv)] else []) ++
        incoming entries := rfl

@[simp] theorem outgoing_append (left right : List (Entry α)) :
    outgoing (left ++ right) = outgoing left ++ outgoing right :=
  List.flatMap_append

@[simp] theorem incoming_append (left right : List (Entry α)) :
    incoming (left ++ right) = incoming left ++ incoming right :=
  List.flatMap_append

theorem outgoing_flatMap {β : Type*} (items : List β) (plan : β → List (Entry α)) :
    outgoing (items.flatMap plan) = items.flatMap fun item => outgoing (plan item) :=
  List.flatMap_assoc

theorem incoming_flatMap {β : Type*} (items : List β) (plan : β → List (Entry α)) :
    incoming (items.flatMap plan) = items.flatMap fun item => incoming (plan item) :=
  List.flatMap_assoc

theorem mem_outgoing {entries : List (Entry α)} {slice : ℕ × ℕ × (ℕ → α)}
    (member : slice ∈ outgoing entries) : ∃ entry ∈ entries, entry.op.prim.sends = true ∧
      slice = (entry.time + 2, entry.bytes, entry.sent) := by
  obtain ⟨entry, planned, found⟩ := List.mem_flatMap.mp member
  split at found
  · rename_i sends
    exact ⟨entry, planned, sends, List.mem_singleton.mp found⟩
  · simp at found

theorem mem_incoming {entries : List (Entry α)} {slice : ℕ × ℕ × (ℕ → α)}
    (member : slice ∈ incoming entries) : ∃ entry ∈ entries, entry.op.prim.recvs = true ∧
      slice = (entry.time, entry.bytes, entry.recv) := by
  obtain ⟨entry, planned, found⟩ := List.mem_flatMap.mp member
  split at found
  · rename_i recvs
    exact ⟨entry, planned, recvs, List.mem_singleton.mp found⟩
  · simp at found

namespace Round

variable {dtype : DType} {stepElems : ℕ}

theorem outgoing_entries_of_silent {round : Round α} (silent : round.prim.sends = false)
    (time : ℕ) : outgoing (round.entries dtype stepElems time) = [] := by
  simp only [outgoing, entries, List.flatMap_map, silent]
  simp

theorem incoming_entries_of_silent {round : Round α} (silent : round.prim.recvs = false)
    (time : ℕ) : incoming (round.entries dtype stepElems time) = [] := by
  simp only [incoming, entries, List.flatMap_map, silent]
  simp

/-- The slices a round sends are the slices the next round of the successor receives. -/
theorem Feeds.outgoing_eq {left right : Round α} (feeds : left.Feeds right) (time : ℕ) :
    outgoing (left.entries dtype stepElems time) =
      incoming (right.entries dtype stepElems (time + 1)) := by
  cases sends : left.prim.sends with
  | false =>
      rw [outgoing_entries_of_silent sends,
        incoming_entries_of_silent (feeds.agree ▸ sends)]
  | true =>
      have recvs : right.prim.recvs = true := feeds.agree ▸ sends
      have leftCut : left.cut dtype stepElems = slices dtype stepElems left.work := by
        unfold cut
        rw [if_neg]
        intro copies
        simp [copies, Prim.sends] at sends
      have rightCut : right.cut dtype stepElems = slices dtype stepElems left.work := by
        unfold cut
        rw [if_neg, feeds.work sends]
        intro copies
        simp [copies, Prim.recvs] at recvs
      simp only [outgoing, incoming, entries, leftCut, rightCut, List.flatMap_map, sends, recvs,
        if_true, feeds.data sends]
      congr 1
      funext slice
      simp only [List.cons.injEq, Prod.mk.injEq, and_true]
      omega

end Round

/-- Agreement of one pass: every round but the last feeds the successor's next round. -/
theorem outgoing_passEntries {dtype : DType} {stepElems rounds : ℕ} {left right : ℕ → Round α}
    (feeds : ∀ p < rounds, (left p).Feeds (right (p + 1)))
    (last : (left rounds).prim.sends = false) (first : (right 0).prim.recvs = false)
    (pass : ℕ) :
    outgoing (passEntries dtype stepElems (rounds + 1) left pass) =
      incoming (passEntries dtype stepElems (rounds + 1) right pass) := by
  unfold passEntries
  rw [outgoing_flatMap, incoming_flatMap]
  nth_rewrite 1 [List.range_succ]
  rw [List.range_succ_eq_map]
  simp only [List.flatMap_append, List.flatMap_cons, List.flatMap_nil, List.flatMap_map,
    Round.outgoing_entries_of_silent last, Round.incoming_entries_of_silent first,
    List.append_nil, List.nil_append]
  refine List.flatMap_congr fun p member => ?_
  have p_lt : p < rounds := List.mem_range.mp member
  rw [(feeds p p_lt).outgoing_eq]
  rfl

/-- Agreement of whole plans. -/
theorem outgoing_planEntries {dtype : DType} {stepElems rounds : ℕ}
    {left right : ℕ → ℕ → Round α} {offsets : List ℕ}
    (feeds : ∀ offset ∈ offsets, ∀ p < rounds, (left offset p).Feeds (right offset (p + 1)))
    (last : ∀ offset, (left offset rounds).prim.sends = false)
    (first : ∀ offset, (right offset 0).prim.recvs = false) :
    outgoing (planEntries dtype stepElems (rounds + 1) left offsets) =
      incoming (planEntries dtype stepElems (rounds + 1) right offsets) := by
  unfold planEntries
  rw [outgoing_flatMap, incoming_flatMap]
  refine List.flatMap_congr fun pass member => ?_
  have offset_mem : pass.1 ∈ offsets := List.fst_mem_of_mem_zipIdx member
  exact outgoing_passEntries (feeds pass.1 offset_mem) (last pass.1) (first pass.1) pass.2

/-! ## Logical time -/

theorem length_sliceLoop_le (sliceSize count iterations offset : ℕ) :
    (sliceLoop sliceSize count iterations offset).length ≤ iterations := by
  induction iterations generalizing offset with
  | zero => simp [sliceLoop]
  | succ iterations ih =>
      have later := ih (offset + sliceSize)
      simp only [sliceLoop]
      split
      · split <;> simp <;> omega
      · simp
        omega

theorem Round.length_cut_le (dtype : DType) (stepElems : ℕ) (round : Round α) :
    (round.cut dtype stepElems).length ≤ 2 := by
  unfold cut
  split
  · simp
  · exact length_sliceLoop_le _ _ _ _

/-- Times grow along a list of entries. -/
def Timed (entries : List (Entry α)) : Prop :=
  entries.Pairwise fun earlier later => earlier.time < later.time

theorem Round.time_mem_entries {dtype : DType} {stepElems time : ℕ} {round : Round α}
    {entry : Entry α} (member : entry ∈ round.entries dtype stepElems time) :
    2 * time ≤ entry.time ∧ entry.time < 2 * time + 2 := by
  simp only [entries, List.mem_map] at member
  obtain ⟨⟨slice, index⟩, found, rfl⟩ := member
  have index_lt := List.snd_lt_of_mem_zipIdx found
  have short := round.length_cut_le dtype stepElems
  simp only
  omega

theorem pairwise_snd_zipIdx {β : Type*} (items : List β) :
    items.zipIdx.Pairwise fun left right => left.2 < right.2 := by
  have positions : (items.zipIdx.map Prod.snd).Pairwise (· < ·) := by
    rw [List.zipIdx_map_snd]
    exact List.pairwise_lt_range'
  exact List.pairwise_map.mp positions

theorem Round.timed_entries (dtype : DType) (stepElems time : ℕ) (round : Round α) :
    Timed (round.entries dtype stepElems time) := by
  unfold Timed entries
  rw [List.pairwise_map]
  refine (pairwise_snd_zipIdx _).imp fun {left right} smaller => ?_
  simp only
  omega

theorem time_mem_passEntries {dtype : DType} {stepElems rounds pass : ℕ} {round : ℕ → Round α}
    {entry : Entry α} (member : entry ∈ passEntries dtype stepElems rounds round pass) :
    2 * (pass * rounds) ≤ entry.time ∧ entry.time < 2 * ((pass + 1) * rounds) := by
  simp only [passEntries, List.mem_flatMap, List.mem_range] at member
  obtain ⟨p, p_lt, found⟩ := member
  have bounds := Round.time_mem_entries found
  rw [Nat.add_mul, Nat.one_mul]
  omega

theorem timed_passEntries (dtype : DType) (stepElems rounds : ℕ) (round : ℕ → Round α)
    (pass : ℕ) : Timed (passEntries dtype stepElems rounds round pass) := by
  unfold Timed passEntries
  rw [List.pairwise_flatMap]
  refine ⟨fun p _ => (round p).timed_entries dtype stepElems _, ?_⟩
  refine List.pairwise_lt_range.imp fun {left right} smaller earlier earlierIn later laterIn => ?_
  have earlierBounds := Round.time_mem_entries earlierIn
  have laterBounds := Round.time_mem_entries laterIn
  omega

theorem timed_planEntries (dtype : DType) (stepElems rounds : ℕ) (round : ℕ → ℕ → Round α)
    (offsets : List ℕ) : Timed (planEntries dtype stepElems rounds round offsets) := by
  unfold Timed planEntries
  rw [List.pairwise_flatMap]
  refine ⟨fun pass _ => timed_passEntries dtype stepElems rounds (round pass.1) pass.2, ?_⟩
  refine (pairwise_snd_zipIdx offsets).imp
    fun {left right} smaller earlier earlierIn later laterIn => ?_
  have earlierBounds := time_mem_passEntries earlierIn
  have laterBounds := time_mem_passEntries laterIn
  have ordered : (left.2 + 1) * rounds ≤ right.2 * rounds := Nat.mul_le_mul_right rounds smaller
  omega

theorem time_mem_planEntries {dtype : DType} {stepElems rounds : ℕ} {round : ℕ → ℕ → Round α}
    {offsets : List ℕ} {entry : Entry α}
    (member : entry ∈ planEntries dtype stepElems rounds round offsets) :
    entry.time < 2 * (offsets.length * rounds) := by
  simp only [planEntries, List.mem_flatMap] at member
  obtain ⟨pass, found, inside⟩ := member
  have pass_lt : pass.2 < offsets.length := by
    have := List.snd_lt_of_mem_zipIdx found
    omega
  have bounds := time_mem_passEntries inside
  have ordered : (pass.2 + 1) * rounds ≤ offsets.length * rounds :=
    Nat.mul_le_mul_right rounds pass_lt
  omega

/-! ## Plans and schedules -/

theorem Round.map_op_entries (args : FifoArgs) (dtype : DType) (time : ℕ) (round : Round α)
    (sliced : round.prim ≠ .copyWorker) :
    (round.entries dtype args.stepElems time).map Entry.op =
      NanoNccl.sliced dtype args round.prim round.src round.dst round.work := by
  unfold entries NanoNccl.sliced cut
  rw [if_neg sliced, List.map_map]
  nth_rewrite 2 [← List.zipIdx_map_fst 0 (slices dtype args.stepElems round.work)]
  rw [List.map_map]
  rfl

/-- The schedule of a plan, pass by pass and round by round. -/
theorem map_op_planEntries (dtype : DType) (stepElems rounds : ℕ) (round : ℕ → ℕ → Round α)
    (offsets : List ℕ) :
    (planEntries dtype stepElems rounds round offsets).map Entry.op =
      offsets.flatMap fun offset => (List.range rounds).flatMap fun p =>
        ((round offset p).entries dtype stepElems 0).map Entry.op := by
  have timeless (round : Round α) (time : ℕ) :
      (round.entries dtype stepElems time).map Entry.op =
        (round.entries dtype stepElems 0).map Entry.op := by
    simp only [Round.entries, List.map_map]
    rfl
  unfold planEntries passEntries
  simp only [List.map_flatMap, timeless]
  nth_rewrite 2 [← List.zipIdx_map_fst 0 offsets]
  rw [List.flatMap_map]

end NanoNccl
