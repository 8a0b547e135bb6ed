import Mathlib.Data.List.Basic
import Mathlib.Logic.Relation

/-!
# Work enqueued on streams

A host enqueues operations on streams. A device runs the operations of one stream in the order
they were enqueued, and a stream that waits for an event goes on once the operation that recorded
the event last, at the time the wait was enqueued, is complete. The log keeps the operations of
all streams in the order of the host.
-/

namespace Streams

/-- What an operation does. -/
inductive Kind (ε : Type*)
  /-- Anything that is neither a record nor a wait. -/
  | work
  /-- Record an event. -/
  | record (event : ε)
  /-- Wait for the last record of an event. -/
  | wait (event : ε)
  deriving DecidableEq

/-- One enqueued operation. -/
structure Op (σ ε : Type*) where
  stream : σ
  kind : Kind ε
  deriving DecidableEq

variable {σ ε : Type*}

/-- `after` waits for an event that `before` records. -/
def Op.Awaits (after before : Op σ ε) : Prop :=
  match after.kind, before.kind with
  | .wait event, .record recorded => event = recorded
  | _, _ => False

instance [DecidableEq ε] (after before : Op σ ε) : Decidable (after.Awaits before) := by
  unfold Op.Awaits
  split <;> infer_instance

@[simp] theorem awaits_wait_record {first second : σ} {event recorded : ε} :
    (⟨second, .wait event⟩ : Op σ ε).Awaits ⟨first, .record recorded⟩ ↔ event = recorded := Iff.rfl

/-- Operation `i` of the log is complete before operation `j` starts, because they share a stream
or because `j` waits for the event that `i` was the last to record. -/
def Direct (log : List (Op σ ε)) (i j : ℕ) : Prop :=
  i < j ∧ ∃ before ∈ log[i]?, ∃ after ∈ log[j]?,
    before.stream = after.stream ∨
      after.Awaits before ∧ ∀ k < j, i < k → ∀ middle ∈ log[k]?, ¬ after.Awaits middle

instance [DecidableEq σ] [DecidableEq ε] (log : List (Op σ ε)) (i j : ℕ) :
    Decidable (Direct log i j) := by
  unfold Direct
  infer_instance

/-- `i` is `j` or ordered before it. -/
def Ordered (log : List (Op σ ε)) : ℕ → ℕ → Prop := Relation.ReflTransGen (Direct log)

/-- Operation `i` of the log is the last one that records the event. -/
def LastRecord (log : List (Op σ ε)) (event : ε) (i : ℕ) : Prop :=
  ∃ op ∈ log[i]?, op.kind = .record event ∧
    ∀ k < log.length, i < k → ∀ later ∈ log[k]?, later.kind ≠ .record event

instance [DecidableEq ε] (log : List (Op σ ε)) (event : ε) (i : ℕ) :
    Decidable (LastRecord log event i) := by
  unfold LastRecord
  infer_instance

/-- A set of complete operations the device can have reached. -/
def Closed (log : List (Op σ ε)) (complete : ℕ → Prop) : Prop :=
  ∀ i j, Direct log i j → complete j → complete i

variable {log new : List (Op σ ε)} {event : ε} {i j : ℕ}

theorem Direct.lt_length (direct : Direct log i j) : i < j ∧ j < log.length := by
  obtain ⟨earlier, _, _, _, found, _⟩ := direct
  exact ⟨earlier, (List.getElem?_eq_some_iff.mp found).1⟩

/-- Operations enqueued later do not change the order of the earlier ones. -/
theorem direct_append_iff (inside : j < log.length) :
    Direct (log ++ new) i j ↔ Direct log i j := by
  have same (k : ℕ) (small : k ≤ j) : (log ++ new)[k]? = log[k]? :=
    List.getElem?_append_left (by omega)
  unfold Direct
  refine and_congr_right fun earlier => ?_
  rw [same i (Nat.le_of_lt earlier), same j (Nat.le_refl j)]
  have between (after : Op σ ε) :
      (∀ k < j, i < k → ∀ middle ∈ (log ++ new)[k]?, ¬ after.Awaits middle) ↔
        ∀ k < j, i < k → ∀ middle ∈ log[k]?, ¬ after.Awaits middle := by
    refine forall₃_congr fun k small _ => ?_
    rw [same k (Nat.le_of_lt small)]
  simp only [between]

theorem Direct.append (direct : Direct log i j) (new : List (Op σ ε)) :
    Direct (log ++ new) i j :=
  (direct_append_iff direct.lt_length.2).mpr direct

theorem Ordered.append (ordered : Ordered log i j) (new : List (Op σ ε)) :
    Ordered (log ++ new) i j :=
  Relation.ReflTransGen.mono (fun _ _ direct => Direct.append direct new) i j ordered

theorem Closed.ordered {complete : ℕ → Prop} (closed : Closed log complete)
    (ordered : Ordered log i j) (last : complete j) : complete i := by
  induction ordered using Relation.ReflTransGen.head_induction_on with
  | refl => exact last
  | head direct _ ih => exact closed _ _ direct ih

theorem Closed.append {complete : ℕ → Prop} (closed : Closed log complete)
    (old : ∀ i, complete i → i < log.length) (new : List (Op σ ε)) :
    Closed (log ++ new) complete := by
  intro i j direct last
  exact closed i j ((direct_append_iff (old j last)).mp direct) last

theorem LastRecord.lt_length (last : LastRecord log event i) : i < log.length := by
  obtain ⟨_, found, _⟩ := last
  exact (List.getElem?_eq_some_iff.mp found).1

/-- Operations that do not record the event leave its last record in place. -/
theorem LastRecord.append (last : LastRecord log event i)
    (silent : ∀ op ∈ new, op.kind ≠ .record event) : LastRecord (log ++ new) event i := by
  have inside : i < log.length := last.lt_length
  obtain ⟨op, found, records, latest⟩ := last
  refine ⟨op, by rwa [List.getElem?_append_left inside], records, ?_⟩
  intro k _ later op member
  by_cases old : k < log.length
  · rw [List.getElem?_append_left old] at member
    exact latest k old later op member
  · rw [List.getElem?_append_right (by omega)] at member
    exact silent op (List.mem_of_getElem? member)

/-- An operation at the end of the log that records the event is its last record. -/
theorem lastRecord_concat (log : List (Op σ ε)) (stream : σ) (event : ε) :
    LastRecord (log ++ [⟨stream, .record event⟩]) event log.length := by
  refine ⟨⟨stream, .record event⟩, by simp, rfl, ?_⟩
  intro k inside later
  simp only [List.length_append, List.length_singleton] at inside
  omega

/-- Two operations of one stream are ordered as they were enqueued. -/
theorem direct_of_stream {before after : Op σ ε} (earlier : i < j) (first : log[i]? = some before)
    (second : log[j]? = some after) (same : before.stream = after.stream) : Direct log i j :=
  ⟨earlier, before, first, after, second, .inl same⟩

/-- The wait enqueued next is ordered behind the last record. -/
theorem LastRecord.direct_wait (last : LastRecord log event i) (stream : σ) :
    Direct (log ++ [⟨stream, .wait event⟩]) i log.length := by
  have inside : i < log.length := last.lt_length
  obtain ⟨⟨first, kind⟩, found, records, latest⟩ := last
  obtain rfl : kind = .record event := records
  refine ⟨inside, ⟨first, .record event⟩, by rwa [List.getElem?_append_left inside],
    ⟨stream, .wait event⟩, by simp, .inr ⟨rfl, ?_⟩⟩
  intro k old later ⟨other, kind⟩ member
  rw [List.getElem?_append_left old] at member
  have silent : kind ≠ .record event := latest k old later _ member
  intro awaits
  cases kind with
  | work => exact awaits
  | wait _ => exact awaits
  | record recorded => exact silent (by rw [show event = recorded from awaits])

/-- All operations of the log are the last record of the event or ordered before it. -/
def Gathered (log : List (Op σ ε)) (event : ε) : Prop :=
  ∃ last, LastRecord log event last ∧ ∀ i < log.length, Ordered log i last

/-- The first record of an event, on the stream everything is on. -/
theorem gathered_first (stream : σ) (event : ε) :
    Gathered [⟨stream, .work⟩, ⟨stream, .record event⟩] event := by
  refine ⟨1, lastRecord_concat [⟨stream, .work⟩] stream event, ?_⟩
  intro i inside
  obtain rfl | rfl : i = 0 ∨ i = 1 := by
    simp only [List.length_cons, List.length_nil] at inside
    omega
  · exact .single (direct_of_stream (by omega) rfl rfl rfl)
  · exact .refl

/-- A stream waits for the event, does some work and records the event again: the new record takes
over everything the old one stood for. -/
theorem Gathered.chain (gathered : Gathered log event) (stream : σ) :
    Gathered (log ++ [⟨stream, .wait event⟩, ⟨stream, .work⟩, ⟨stream, .record event⟩]) event := by
  obtain ⟨last, recorded, before⟩ := gathered
  have split : log ++ [⟨stream, .wait event⟩, ⟨stream, .work⟩, ⟨stream, .record event⟩] =
      (log ++ [⟨stream, .wait event⟩]) ++ [⟨stream, .work⟩, ⟨stream, .record event⟩] := by simp
  have ending : log ++ [⟨stream, .wait event⟩, ⟨stream, .work⟩, ⟨stream, .record event⟩] =
      (log ++ [⟨stream, .wait event⟩, ⟨stream, .work⟩]) ++ [⟨stream, .record event⟩] := by simp
  have here (k : ℕ) :
      (log ++ [⟨stream, .wait event⟩, ⟨stream, .work⟩, ⟨stream, .record event⟩])[log.length + k]? =
        [⟨stream, .wait event⟩, ⟨stream, .work⟩, ⟨stream, .record event⟩][k]? := by
    rw [List.getElem?_append_right (by omega), Nat.add_sub_cancel_left]
  refine ⟨log.length + 2, ?_, fun i inside => ?_⟩
  · have recorded :=
      lastRecord_concat (log ++ [⟨stream, .wait event⟩, ⟨stream, .work⟩]) stream event
    rwa [List.length_append, ← ending] at recorded
  · have wait_first : Direct
        (log ++ [⟨stream, .wait event⟩, ⟨stream, .work⟩, ⟨stream, .record event⟩])
        log.length (log.length + 2) :=
      direct_of_stream (by omega) (here 0) (here 2) rfl
    by_cases old : i < log.length
    · have waited := (recorded.direct_wait stream).append
        [⟨stream, .work⟩, ⟨stream, .record event⟩]
      rw [← split] at waited
      exact (((before i old).append _).tail waited).tail wait_first
    · obtain rfl | rfl | rfl : i = log.length ∨ i = log.length + 1 ∨ i = log.length + 2 := by
        simp only [List.length_append, List.length_cons, List.length_nil] at inside
        omega
      · exact .single wait_first
      · exact .single (direct_of_stream (by omega) (here 1) (here 2) rfl)
      · exact .refl

end Streams
