import Mathlib.Logic.Basic

/-!
# Code that throws and keeps what it wrote

A member function of an object with state `σ` is an action `ExceptT ε (StateM σ) α`: it returns or
throws, and in both cases the writes made so far stay. `Ensures` is the rule set for what an action
leaves behind on either way, `Simulates` relates it to the same action on a part of the state.
-/

namespace Throwing

variable {ε σ τ α β : Type}

/-- Run an action from a state. -/
def execute (action : ExceptT ε (StateM σ) α) (state : σ) : Except ε α × σ :=
  action.run.run state

@[simp] theorem execute_pure (value : α) (state : σ) :
    execute (pure value : ExceptT ε (StateM σ) α) state = (.ok value, state) := rfl

@[simp] theorem execute_throw (error : ε) (state : σ) :
    execute (throw error : ExceptT ε (StateM σ) α) state = (.error error, state) := rfl

@[simp] theorem execute_get (state : σ) :
    execute (get : ExceptT ε (StateM σ) σ) state = (.ok state, state) := rfl

@[simp] theorem execute_modify (change : σ → σ) (state : σ) :
    execute (modify change : ExceptT ε (StateM σ) Unit) state = (.ok (), change state) := rfl

theorem execute_bind (first : ExceptT ε (StateM σ) α) (next : α → ExceptT ε (StateM σ) β)
    (state : σ) :
    execute (first >>= next) state =
      match execute first state with
      | (.ok value, middle) => execute (next value) middle
      | (.error error, middle) => (.error error, middle) := by
  unfold execute
  rw [ExceptT.run_bind, StateT.run_bind]
  rcases first.run.run state with ⟨answer, middle⟩
  cases answer <;> rfl

theorem execute_tryCatch (body : ExceptT ε (StateM σ) α)
    (handler : ε → ExceptT ε (StateM σ) α) (state : σ) :
    execute (tryCatch body handler) state =
      match execute body state with
      | (.ok value, middle) => (.ok value, middle)
      | (.error error, middle) => execute (handler error) middle := by
  simp only [execute, tryCatch, tryCatchThe, MonadExceptOf.tryCatch, ExceptT.tryCatch,
    ExceptT.run_mk, StateT.run_bind]
  have unfolded : StateT.run (ExceptT.run body) state = StateT.run body state := rfl
  rw [unfolded]
  rcases StateT.run body state with ⟨answer, middle⟩
  cases answer <;> rfl

/-! ### What an action leaves behind -/

/-- If the action returns, `returns` holds of its value and state, and if it throws, `throws` holds
of the state it leaves. -/
def Ensures (action : ExceptT ε (StateM σ) α) (state : σ) (returns : α → σ → Prop)
    (throws : σ → Prop) : Prop :=
  match execute action state with
  | (.ok value, next) => returns value next
  | (.error _, next) => throws next

section Ensures

variable {action : ExceptT ε (StateM σ) α} {state : σ} {returns : α → σ → Prop}
  {throws : σ → Prop}

theorem ensures_pure {value : α} (holds : returns value state) :
    Ensures (pure value : ExceptT ε (StateM σ) α) state returns throws := holds

theorem ensures_throw {error : ε} (holds : throws state) :
    Ensures (throw error : ExceptT ε (StateM σ) α) state returns throws := holds

theorem ensures_throw_bind {error : ε} {next : β → ExceptT ε (StateM σ) α}
    (holds : throws state) :
    Ensures (throw error >>= next : ExceptT ε (StateM σ) α) state returns throws := holds

theorem ensures_modify {change : σ → σ} {returns : Unit → σ → Prop}
    (holds : returns () (change state)) :
    Ensures (modify change : ExceptT ε (StateM σ) Unit) state returns throws := holds

theorem ensures_modify_eq (change : σ → σ) :
    Ensures (modify change : ExceptT ε (StateM σ) Unit) state
      (fun _ next => next = change state) throws := rfl

theorem Ensures.bind {middle : α → σ → Prop} {next : α → ExceptT ε (StateM σ) β}
    {returns : β → σ → Prop} (first : Ensures action state middle throws)
    (rest : ∀ value after, middle value after → Ensures (next value) after returns throws) :
    Ensures (action >>= next) state returns throws := by
  unfold Ensures at first ⊢
  rw [execute_bind]
  rcases ran : execute action state with ⟨_ | value, after⟩ <;> rw [ran] at first
  · exact first
  · exact rest value after first

theorem ensures_get_bind {next : σ → ExceptT ε (StateM σ) β} {returns : β → σ → Prop}
    (rest : Ensures (next state) state returns throws) :
    Ensures (get >>= next) state returns throws := rest

theorem Ensures.tryCatch {middle : σ → Prop} {handler : ε → ExceptT ε (StateM σ) α}
    (body : Ensures action state returns middle)
    (handled : ∀ error after, middle after → Ensures (handler error) after returns throws) :
    Ensures (tryCatch action handler) state returns throws := by
  unfold Ensures at body ⊢
  rw [execute_tryCatch]
  rcases ran : execute action state with ⟨error | value, after⟩ <;> rw [ran] at body
  · exact handled error after body
  · exact body

theorem Ensures.imp {returns' : α → σ → Prop} {throws' : σ → Prop}
    (ensures : Ensures action state returns throws)
    (on_return : ∀ value next, returns value next → returns' value next)
    (on_throw : ∀ next, throws next → throws' next) : Ensures action state returns' throws' := by
  unfold Ensures at ensures ⊢
  rcases ran : execute action state with ⟨_ | value, next⟩ <;> rw [ran] at ensures
  · exact on_throw next ensures
  · exact on_return value next ensures

/-- The two ways an action ends. -/
theorem Ensures.ends (ensures : Ensures action state returns throws) :
    (∃ value, (execute action state).1 = .ok value ∧ returns value (execute action state).2) ∨
      ∃ error, (execute action state).1 = .error error ∧ throws (execute action state).2 := by
  unfold Ensures at ensures
  rcases ran : execute action state with ⟨error | value, next⟩ <;> rw [ran] at ensures
  · exact .inr ⟨error, rfl, ensures⟩
  · exact .inl ⟨value, rfl, ensures⟩

end Ensures

/-! ### Forgetting a part of the state -/

/-- Seen through `view`, the outer action does what the inner one does. -/
def Simulates (view : σ → τ) (outer : ExceptT ε (StateM σ) α)
    (inner : ExceptT ε (StateM τ) α) : Prop :=
  ∀ state, ((execute outer state).1, view (execute outer state).2) = execute inner (view state)

section Simulates

variable {view : σ → τ} {outer : ExceptT ε (StateM σ) α} {inner : ExceptT ε (StateM τ) α}

theorem simulates_pure (value : α) :
    Simulates view (pure value : ExceptT ε (StateM σ) α) (pure value) := fun _ => rfl

theorem simulates_throw (error : ε) :
    Simulates view (throw error : ExceptT ε (StateM σ) α) (throw error) := fun _ => rfl

theorem Simulates.bind {next : α → ExceptT ε (StateM σ) β} {rest : α → ExceptT ε (StateM τ) β}
    (first : Simulates view outer inner)
    (later : ∀ value, Simulates view (next value) (rest value)) :
    Simulates view (outer >>= next) (inner >>= rest) := by
  intro state
  rw [execute_bind, execute_bind, ← first state]
  rcases execute outer state with ⟨_ | value, middle⟩
  · rfl
  · exact later value middle

/-- A read of the whole state that only uses the view. -/
theorem simulates_get_bind {next : σ → ExceptT ε (StateM σ) β} {rest : τ → ExceptT ε (StateM τ) β}
    (later : ∀ state, Simulates view (next state) (rest (view state))) :
    Simulates view (get >>= next) (get >>= rest) := fun state => later state state

/-- A write outside the view. -/
theorem Simulates.after_hidden {change : σ → σ} (hidden : ∀ state, view (change state) = view state)
    (rest : Simulates view outer inner) :
    Simulates view (modify change >>= fun _ => outer) inner := by
  intro state
  have later := rest (change state)
  rwa [hidden] at later

theorem Simulates.tryCatch {handler : ε → ExceptT ε (StateM σ) α}
    {recovery : ε → ExceptT ε (StateM τ) α} (body : Simulates view outer inner)
    (handled : ∀ error, Simulates view (handler error) (recovery error)) :
    Simulates view (tryCatch outer handler) (tryCatch inner recovery) := by
  intro state
  rw [execute_tryCatch, execute_tryCatch, ← body state]
  rcases execute outer state with ⟨error | value, middle⟩
  · exact handled error middle
  · rfl

theorem simulates_ite {chosen : Prop} [Decidable chosen] {outer' : ExceptT ε (StateM σ) α}
    {inner' : ExceptT ε (StateM τ) α} (yes : Simulates view outer inner)
    (no : Simulates view outer' inner') :
    Simulates view (if chosen then outer else outer') (if chosen then inner else inner') := by
  split
  · exact yes
  · exact no

/-- A conditional step in front of the rest, against the conditional with the rest in both of its
branches. -/
theorem simulates_ite_bind {chosen : Prop} [Decidable chosen] {outer : ExceptT ε (StateM σ) Unit}
    {inner : ExceptT ε (StateM τ) Unit} {next : Unit → ExceptT ε (StateM σ) β}
    {rest : Unit → ExceptT ε (StateM τ) β} (first : Simulates view outer inner)
    (later : Simulates view (next ()) (rest ())) :
    Simulates view ((if chosen then outer else pure ()) >>= next)
      (if chosen then inner >>= rest else rest ()) := by
  split
  · exact first.bind fun _ => later
  · exact later

end Simulates

end Throwing
