import NanoNccl.Lib.Numbered

/-!
# Work requests in flight and their completions

Requests enter a queue in order and are executed in order; a signaled request adds an entry to a
completion queue. An entry stands for its own request and for all unsignaled ones before it, so the
owner learns of the requests of a queue only up to the last signaled one. The ledger relates the
history of requests, the number executed and the completion queue to what the owner believes: that
the requests numbered `completed`, `completed + 1`, ... are in flight.
-/

namespace Ledger

variable {ι : Type*} {name : ℕ → ι}

/-- The completions a list of executed requests leaves: the names of the signaled ones. -/
def completions (requests : List (ι × Bool)) : List ι :=
  (requests.filter Prod.snd).map Prod.fst

@[simp] theorem completions_nil : completions ([] : List (ι × Bool)) = [] := rfl

theorem completions_append (first second : List (ι × Bool)) :
    completions (first ++ second) = completions first ++ completions second := by
  simp [completions]

theorem completions_singleton (request : ι × Bool) :
    completions [request] = if request.2 then [request.1] else [] := by
  cases request with
  | mk id signaled => cases signaled <;> rfl

/-- The newest request was posted without a completion to announce it. -/
def Unsignaled (requests : List (ι × Bool)) : Prop := ∃ id, requests.getLast? = some (id, false)

theorem unsignaled_concat (requests : List (ι × Bool)) (request : ι × Bool) :
    Unsignaled (requests ++ [request]) ↔ request.2 = false := by
  obtain ⟨id, signaled⟩ := request
  simp [Unsignaled]

theorem not_unsignaled_nil : ¬ Unsignaled ([] : List (ι × Bool)) := by
  simp [Unsignaled]

theorem unsignaled_map {α : Type*} (request : α → ι × Bool) {sent : List α} {newest : α}
    (last : sent.getLast? = some newest) :
    Unsignaled (sent.map request) ↔ (request newest).2 = false := by
  rw [Unsignaled, List.getLast?_map, last, Option.map_some]
  constructor
  · rintro ⟨id, same⟩
    rw [Option.some.inj same]
  · intro unsignaled
    exact ⟨(request newest).1, by rw [← unsignaled]⟩

/-- The owner's books and the queue agree: the requests settled in the past end with a signaled
one, those in flight are numbered from `completed` on, and the completion queue holds the signaled
ones of those executed. -/
def Balanced (name : ℕ → ι) (completed inflight : ℕ) (sent : List (ι × Bool)) (executed : ℕ)
    (cq : List ι) : Prop :=
  ∃ old finished running, sent = old ++ (finished ++ running) ∧ ¬ Unsignaled old ∧
    (finished ++ running).length = inflight ∧ executed = old.length + finished.length ∧
    Queue.Numbered (fun k (request : ι × Bool) => request.1 = name k) completed
      (finished ++ running) ∧
    cq = completions finished

theorem balanced_nil (name : ℕ → ι) (completed : ℕ) : Balanced name completed 0 [] 0 [] :=
  ⟨[], [], [], rfl, not_unsignaled_nil, rfl, rfl, trivial, rfl⟩

section

variable {completed inflight executed : ℕ} {sent : List (ι × Bool)} {cq : List ι}

/-- A new request takes the next number. -/
theorem Balanced.post (balanced : Balanced name completed inflight sent executed cq)
    (signaled : Bool) :
    Balanced name completed (inflight + 1) (sent ++ [(name (completed + inflight), signaled)])
      executed cq := by
  obtain ⟨old, finished, running, rfl, settled, rfl, rfl, numbered, rfl⟩ := balanced
  refine ⟨old, finished, running ++ [(name (completed + (finished ++ running).length), signaled)],
    by simp, settled, by simp [Nat.add_assoc], rfl, ?_, rfl⟩
  rw [← List.append_assoc]
  exact numbered.concat rfl

/-- The oldest request that is not executed is executed. -/
theorem Balanced.execute (balanced : Balanced name completed inflight sent executed cq)
    {request : ι × Bool} (next : sent[executed]? = some request) :
    Balanced name completed inflight sent (executed + 1)
      (if request.2 then cq ++ [request.1] else cq) := by
  obtain ⟨old, finished, running, rfl, settled, rfl, rfl, numbered, rfl⟩ := balanced
  obtain ⟨rest, rfl⟩ : ∃ rest, running = request :: rest := by
    cases running with
    | nil => simp at next
    | cons head rest =>
        rw [← List.append_assoc, List.getElem?_append_right (by simp)] at next
        simp only [List.length_append, Nat.sub_self, List.getElem?_cons_zero,
          Option.some.injEq] at next
        exact ⟨rest, by rw [next]⟩
  refine ⟨old, finished ++ [request], rest, by simp, settled, by simp, by simp [Nat.add_assoc], ?_,
    ?_⟩
  · simpa using numbered
  · rw [completions_append, completions_singleton]
    split_ifs <;> simp

/-- The first completion names a request in flight and settles all requests up to it. -/
theorem exists_of_completions_cons {finished : List (ι × Bool)} {id : ι} {later : List ι}
    (first : completions finished = id :: later) :
    ∃ before after, finished = before ++ (id, true) :: after ∧ completions after = later := by
  induction finished with
  | nil => simp at first
  | cons request rest ih =>
      obtain ⟨named, signaled⟩ := request
      cases signaled with
      | true =>
          obtain ⟨rfl, rfl⟩ : named = id ∧ completions rest = later := by
            simpa [completions] using first
          exact ⟨[], rest, rfl, rfl⟩
      | false =>
          obtain ⟨before, after, rfl, same⟩ := ih (by simpa [completions] using first)
          exact ⟨(named, false) :: before, after, rfl, same⟩

theorem Balanced.complete {id : ι} {later : List ι}
    (balanced : Balanced name completed inflight sent executed (id :: later)) :
    ∃ offset < inflight, id = name (completed + offset) ∧
      Balanced name (completed + offset + 1) (inflight - (offset + 1)) sent executed later := by
  obtain ⟨old, finished, running, rfl, settled, rfl, rfl, numbered, first⟩ := balanced
  obtain ⟨before, after, rfl, same⟩ := exists_of_completions_cons first.symm
  refine ⟨before.length, by simp, ?_, ?_⟩
  · have here : (before ++ (id, true) :: after ++ running)[before.length]? = some (id, true) := by
      simp
    exact numbered.get here
  · have settled_now : ¬ Unsignaled (old ++ before ++ [(id, true)]) := by
      rw [unsignaled_concat]
      exact Bool.noConfusion
    refine ⟨old ++ before ++ [(id, true)], after, running, by simp, settled_now, by simp; omega,
      by simp; omega, ?_, same.symm⟩
    have split : before ++ (id, true) :: after ++ running =
        (before ++ [(id, true)]) ++ (after ++ running) := by simp
    rw [split] at numbered
    simpa [Nat.add_assoc] using numbered.drop

/-- When every request is signaled, the first completion is the one of the oldest in flight. -/
theorem Balanced.complete_oldest {id : ι} {later : List ι}
    (balanced : Balanced name completed inflight sent executed (id :: later))
    (signaled : ∀ request ∈ sent, request.2 = true) :
    0 < inflight ∧ id = name completed ∧
      Balanced name (completed + 1) (inflight - 1) sent executed later := by
  obtain ⟨old, finished, running, rfl, settled, rfl, rfl, numbered, first⟩ := balanced
  cases finished with
  | nil => simp at first
  | cons request rest =>
      have flagged : request.2 = true := signaled request (by simp)
      obtain ⟨rfl, rfl⟩ : id = request.1 ∧ later = completions rest := by
        simpa [completions, flagged] using first
      refine ⟨by simp, numbered.1, old ++ [request], rest, running, by simp, ?_, by simp,
        by simp; omega, numbered.2, rfl⟩
      simp [unsignaled_concat, flagged]

/-- With nothing in flight the owner may renumber. -/
theorem Balanced.renumber (balanced : Balanced name completed 0 sent executed cq) (next : ℕ) :
    Balanced name next 0 sent executed cq := by
  obtain ⟨old, finished, running, rfl, settled, empty, rfl, -, rfl⟩ := balanced
  obtain ⟨rfl, rfl⟩ : finished = [] ∧ running = [] := by
    simpa using List.length_eq_zero_iff.mp empty
  exact ⟨old, [], [], rfl, settled, rfl, rfl, trivial, rfl⟩

/-- An unsignaled newest request is in flight. -/
theorem Balanced.inflight_pos (balanced : Balanced name completed inflight sent executed cq)
    (open_end : Unsignaled sent) : 0 < inflight := by
  obtain ⟨old, finished, running, rfl, settled, rfl, -, -, -⟩ := balanced
  by_contra nothing
  obtain ⟨rfl, rfl⟩ : finished = [] ∧ running = [] := by
    simpa using List.length_eq_zero_iff.mp (Nat.eq_zero_of_not_pos nothing)
  exact settled (by simpa using open_end)

/-- When every request is executed, every completion is taken and the newest request was signaled,
nothing is in flight. -/
theorem Balanced.drained (balanced : Balanced name completed inflight sent sent.length [])
    (last : ¬ Unsignaled sent) : inflight = 0 := by
  obtain ⟨old, finished, running, split, -, rfl, everything, -, none_left⟩ := balanced
  have nothing_running : running = [] := by
    have lengths := congrArg List.length split
    simp only [List.length_append] at lengths
    exact List.length_eq_zero_iff.mp (by omega)
  subst nothing_running
  rcases List.eq_nil_or_concat finished with rfl | ⟨init, request, rfl⟩
  · rfl
  · have newest : sent = old ++ init ++ [request] := by simp [split]
    rw [newest, unsignaled_concat, Bool.not_eq_false] at last
    rw [List.concat_eq_append, completions_append, completions_singleton, last] at none_left
    simp at none_left

end

end Ledger
