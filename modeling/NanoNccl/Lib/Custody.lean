import Mathlib.Algebra.Order.Group.Multiset
import Mathlib.Data.Multiset.Basic
import NanoNccl.Lib.Throwing

/-!
# Resources and their owners

Code acquires resources, some of which need others for as long as they are in use, and releases
them again. The ledger knows which are in use, and takes note of every misuse: a release of
something that is not in use or that another one still needs, and a use of something that is not
there.

An object owns a list of resources, in the order in which its destructor releases them. `Over` says
that the order suits what they need, and `Holds` that nothing else is in use and nothing was
misused.
-/

namespace Custody

open Throwing

/-- A resource in use. -/
structure Handle (κ : Type) where
  /-- No two resources share it. -/
  id : ℕ
  kind : κ
  /-- The resources it needs. -/
  needs : List ℕ
  deriving DecidableEq, Repr

/-- The resources in use. -/
structure Ledger (κ : Type) where
  /-- Number of resources acquired so far. -/
  issued : ℕ
  live : List (Handle κ)
  /-- Something was misused. -/
  fault : Bool
  deriving DecidableEq, Repr

variable {κ σ τ α β : Type}

@[simp] theorem coe_cons_add (handle : Handle κ) (rest : List (Handle κ))
    (held : Multiset (Handle κ)) :
    ((handle :: rest : List (Handle κ)) : Multiset (Handle κ)) + held =
      handle ::ₘ ((rest : Multiset (Handle κ)) + held) := by
  rw [← Multiset.cons_coe, Multiset.cons_add]

/-- Nothing is in use. -/
def Ledger.empty : Ledger κ := ⟨0, [], false⟩

/-- The next resource. -/
def Ledger.next (ledger : Ledger κ) (kind : κ) (needs : List (Handle κ)) : Handle κ :=
  ⟨ledger.issued, kind, needs.map Handle.id⟩

/-- A resource is acquired. -/
def Ledger.issue (ledger : Ledger κ) (kind : κ) (needs : List (Handle κ)) : Ledger κ :=
  { ledger with
    issued := ledger.issued + 1
    live := ledger.next kind needs :: ledger.live }

/-! ### Orders in which resources can be released -/

section Over

/-- Released in this order, resources are gone before those they need, apart from those of the
base. -/
def Over (base : List (Handle κ)) : List (Handle κ) → Prop
  | [] => True
  | handle :: rest => handle.needs ⊆ (rest ++ base).map Handle.id ∧ Over base rest

variable {base base' handles first second : List (Handle κ)} {handle : Handle κ}

@[simp] theorem over_nil : Over base [] := trivial

@[simp] theorem over_cons :
    Over base (handle :: handles) ↔
      handle.needs ⊆ (handles ++ base).map Handle.id ∧ Over base handles := Iff.rfl

theorem Over.mono (ordered : Over base handles) (sub : base ⊆ base') : Over base' handles := by
  induction handles with
  | nil => trivial
  | cons handle rest ih =>
      refine ⟨List.Subset.trans ordered.1 (List.map_subset _ ?_), ih ordered.2⟩
      exact List.append_subset.mpr
        ⟨List.subset_append_left _ _, List.Subset.trans sub (List.subset_append_right _ _)⟩

theorem over_append :
    Over base (first ++ second) ↔ Over (second ++ base) first ∧ Over base second := by
  induction first with
  | nil => simp
  | cons handle first ih =>
      simp only [List.cons_append, over_cons, ih, List.append_assoc, and_assoc]

theorem Over.append (before : Over (second ++ base) first) (behind : Over base second) :
    Over base (first ++ second) :=
  over_append.mpr ⟨before, behind⟩

/-- Objects that need only themselves and the base can go in any order. -/
theorem over_flatten {blocks : List (List (Handle κ))}
    (each : ∀ block ∈ blocks, Over base block) : Over base blocks.flatten := by
  induction blocks with
  | nil => trivial
  | cons block blocks ih =>
      rw [List.flatten_cons]
      have here := each block List.mem_cons_self
      exact (here.mono (List.subset_append_right _ _)).append
        (ih fun other member => each other (List.mem_cons_of_mem _ member))

/-- Resources that need nothing but the base can go in any order. -/
theorem over_of_needs (needs : ∀ handle ∈ handles, handle.needs ⊆ base.map Handle.id) :
    Over base handles := by
  induction handles with
  | nil => trivial
  | cons handle rest ih =>
      refine ⟨?_, ih fun other member => needs other (List.mem_cons_of_mem _ member)⟩
      rw [List.map_append]
      exact List.Subset.trans (needs handle List.mem_cons_self) (List.subset_append_right _ _)

theorem over_of_free (free : ∀ handle ∈ handles, handle.needs = []) : Over base handles :=
  over_of_needs fun handle member => by simp [free handle member]

/-- Whatever is needed is there. -/
theorem Over.among (ordered : Over base handles) (member : handle ∈ handles) :
    handle.needs ⊆ (handles ++ base).map Handle.id := by
  induction handles with
  | nil => cases member
  | cons first rest ih =>
      rw [List.cons_append, List.map_cons]
      refine List.Subset.trans ?_ (List.subset_cons_self _ _)
      rcases List.mem_cons.mp member with rfl | later
      · exact ordered.1
      · exact ih ordered.2 later

end Over

/-- All that these resources need is among them. -/
def Closed (held : Multiset (Handle κ)) : Prop :=
  ∀ handle ∈ held, ∀ id ∈ handle.needs, id ∈ held.map Handle.id

theorem closed_zero : Closed (0 : Multiset (Handle κ)) := by simp [Closed]

/-- An object on top of closed resources. -/
theorem Closed.add {held : Multiset (Handle κ)} (closed : Closed held)
    {base owned : List (Handle κ)}
    (ordered : Over base owned) (inside : ∀ handle ∈ base, handle ∈ held) :
    Closed ((owned : Multiset (Handle κ)) + held) := by
  intro handle member id needed
  rw [Multiset.map_add, Multiset.mem_add]
  rcases Multiset.mem_add.mp member with own | other
  · have among := ordered.among (Multiset.mem_coe.mp own) needed
    rw [List.map_append, List.mem_append] at among
    rcases among with own_id | base_id
    · exact .inl (by simpa using own_id)
    · obtain ⟨needed', from_base, rfl⟩ := List.mem_map.mp base_id
      exact .inr (Multiset.mem_map_of_mem _ (inside needed' from_base))
  · exact .inr (closed handle other id needed)

/-- Exactly these resources are in use, and nothing was misused. -/
structure Holds (ledger : Ledger κ) (held : Multiset (Handle κ)) : Prop where
  sound : ledger.fault = false
  live : (ledger.live : Multiset (Handle κ)) = held
  old : ∀ handle ∈ held, handle.id < ledger.issued
  distinct : (held.map Handle.id).Nodup

theorem holds_empty : Holds (Ledger.empty : Ledger κ) 0 := ⟨rfl, rfl, by simp, by simp⟩

namespace Holds

variable {ledger : Ledger κ} {held : Multiset (Handle κ)} {handle : Handle κ}

theorem mem_live (holds : Holds ledger held) : handle ∈ ledger.live ↔ handle ∈ held := by
  rw [← holds.live, Multiset.mem_coe]

theorem issue (holds : Holds ledger held) (kind : κ) (needs : List (Handle κ)) :
    Holds (ledger.issue kind needs) (ledger.next kind needs ::ₘ held) where
  sound := holds.sound
  live := by simp [Ledger.issue, ← holds.live]
  old := by
    intro handle member
    rcases Multiset.mem_cons.mp member with rfl | older
    · exact Nat.lt_succ_self _
    · exact (holds.old handle older).trans (Nat.lt_succ_self _)
  distinct := by
    rw [Multiset.map_cons, Multiset.nodup_cons]
    refine ⟨fun again => ?_, holds.distinct⟩
    obtain ⟨other, older, same⟩ := Multiset.mem_map.mp again
    exact absurd same (holds.old other older).ne

end Holds

/-! ### Uses and releases -/

variable [DecidableEq κ]

/-- A resource is used. -/
def Ledger.use (ledger : Ledger κ) (handle : Handle κ) : Ledger κ :=
  { ledger with fault := ledger.fault || !decide (handle ∈ ledger.live) }

/-- A resource is released. -/
def Ledger.release (ledger : Ledger κ) (handle : Handle κ) : Ledger κ :=
  { ledger with
    live := ledger.live.erase handle
    fault := ledger.fault || !decide (handle ∈ ledger.live) ||
      ledger.live.any fun other => decide (handle.id ∈ other.needs) }

/-- Several resources are released, one after the other. -/
def Ledger.releaseAll (ledger : Ledger κ) (handles : List (Handle κ)) : Ledger κ :=
  handles.foldl Ledger.release ledger

namespace Holds

variable {ledger : Ledger κ} {held : Multiset (Handle κ)} {handle : Handle κ}

theorem use (holds : Holds ledger held) (member : handle ∈ held) : ledger.use handle = ledger := by
  have inside := holds.mem_live.mpr member
  simp [Ledger.use, inside]

theorem useAll (holds : Holds ledger held) {handles : List (Handle κ)}
    (members : ∀ handle ∈ handles, handle ∈ held) : handles.foldl Ledger.use ledger = ledger := by
  induction handles with
  | nil => rfl
  | cons handle rest ih =>
      rw [List.foldl_cons, holds.use (members handle List.mem_cons_self)]
      exact ih fun other member => members other (List.mem_cons_of_mem _ member)

/-- A resource that nothing needs is released. -/
theorem release (holds : Holds ledger (handle ::ₘ held))
    (unneeded : ∀ other ∈ handle ::ₘ held, handle.id ∉ other.needs) :
    Holds (ledger.release handle) held where
  sound := by
    have inside := holds.mem_live.mpr (Multiset.mem_cons_self handle held)
    have free : (ledger.live.any fun other => decide (handle.id ∈ other.needs)) = false := by
      rw [List.any_eq_false]
      intro other member
      rw [decide_eq_true_eq]
      exact unneeded other (holds.mem_live.mp member)
    simp [Ledger.release, holds.sound, inside, free]
  live := by
    simp only [Ledger.release]
    rw [← Multiset.coe_erase, holds.live, Multiset.erase_cons_head]
  old := fun other member => holds.old other (Multiset.mem_cons_of_mem member)
  distinct := by
    have apart := holds.distinct
    rw [Multiset.map_cons, Multiset.nodup_cons] at apart
    exact apart.2

/-- An object on top of closed resources releases what it owns. -/
theorem releaseAll {base owned : List (Handle κ)}
    (holds : Holds ledger ((owned : Multiset (Handle κ)) + held)) (closed : Closed held)
    (ordered : Over base owned) (inside : ∀ handle ∈ base, handle ∈ held) :
    Holds (ledger.releaseAll owned) held := by
  induction owned generalizing ledger with
  | nil => exact (by simpa using holds : Holds ledger held)
  | cons handle owned ih =>
      rw [← Multiset.cons_coe, Multiset.cons_add] at holds
      refine ih (holds.release fun other member needed => ?_) ordered.2
      -- Everything needs only what comes behind it, and nothing else has this identity.
      have apart := holds.distinct
      rw [Multiset.map_cons, Multiset.nodup_cons] at apart
      have behind := (closed.add ordered.2 inside) other
      rcases Multiset.mem_cons.mp member with rfl | later
      · have among := ordered.1 needed
        rw [List.map_append, List.mem_append] at among
        refine apart.1 (Multiset.mem_map.mpr ?_)
        rcases among with own | from_base
        · obtain ⟨found, member, same⟩ := List.mem_map.mp own
          exact ⟨found, Multiset.mem_add.mpr (.inl (Multiset.mem_coe.mpr member)), same⟩
        · obtain ⟨found, member, same⟩ := List.mem_map.mp from_base
          exact ⟨found, Multiset.mem_add.mpr (.inr (inside found member)), same⟩
      · exact apart.1 (behind later _ needed)

end Holds

/-! ### Resources without an owner -/

/-- Besides these resources at most one is in use. It is of a kind that may get lost, it needs
nothing, and nobody will release it. -/
def HoldsBut (lossy : κ → Prop) (ledger : Ledger κ) (held : Multiset (Handle κ)) : Prop :=
  Holds ledger held ∨ ∃ lost, lossy lost.kind ∧ lost.needs = [] ∧ Holds ledger (held + {lost})

section HoldsBut

variable {lossy : κ → Prop} {ledger : Ledger κ} {held : Multiset (Handle κ)}

omit [DecidableEq κ] in
theorem Holds.but (holds : Holds ledger held) : HoldsBut lossy ledger held := .inl holds

omit [DecidableEq κ] in
theorem HoldsBut.congr {held' : Multiset (Handle κ)} (holds : HoldsBut lossy ledger held)
    (same : held = held') : HoldsBut lossy ledger held' := same ▸ holds

theorem HoldsBut.releaseAll {base owned : List (Handle κ)}
    (holds : HoldsBut lossy ledger ((owned : Multiset (Handle κ)) + held)) (closed : Closed held)
    (ordered : Over base owned) (inside : ∀ handle ∈ base, handle ∈ held) :
    HoldsBut lossy (ledger.releaseAll owned) held := by
  rcases holds with holds | ⟨lost, isLossy, free, holds⟩
  · exact .inl (holds.releaseAll closed ordered inside)
  · refine .inr ⟨lost, isLossy, free, ?_⟩
    have closed_too : Closed (held + {lost}) := by
      have alone : Over [] [lost] := over_of_free (by simpa using free)
      have on_top := closed.add alone (by simp)
      rwa [add_comm] at on_top
    refine Holds.releaseAll (by rwa [← add_assoc]) closed_too ordered fun handle member => ?_
    exact Multiset.mem_add.mpr (.inl (inside handle member))

end HoldsBut

/-! ### Code that acquires resources -/

/-- Code with variables and resources. -/
abbrev Procedure (σ κ : Type) := ExceptT String (StateM (σ × Ledger κ))

/-- Use resources. -/
def useAll (handles : List (Handle κ)) : Procedure σ κ Unit :=
  modify fun state => (state.1, handles.foldl Ledger.use state.2)

/-- Acquire a resource, if the call succeeds. -/
def attempt (ok : Bool) (kind : κ) (needs : List (Handle κ)) :
    Procedure σ κ (Option (Handle κ)) := do
  useAll needs
  let state ← get
  if ok then
    set (state.1, state.2.issue kind needs)
    return some (state.2.next kind needs)
  else return none

/-- Acquire a resource, or throw if the call fails. -/
def acquire (ok : Bool) (error : String) (kind : κ) (needs : List (Handle κ)) :
    Procedure σ κ (Handle κ) := do
  match ← attempt ok kind needs with
  | some handle => return handle
  | none => throw error

/-- Release resources. -/
def release (handles : List (Handle κ)) : Procedure σ κ Unit :=
  modify fun state => (state.1, state.2.releaseAll handles)

omit [DecidableEq κ] in
/-- Change the variables. -/
def assign (change : σ → σ) : Procedure σ κ Unit :=
  modify fun state => (change state.1, state.2)

omit [DecidableEq κ] in
/-- Something is misused. -/
def misuse : Procedure σ κ Unit :=
  modify fun state => (state.1, { state.2 with fault := true })

omit [DecidableEq κ] in
/-- Throw unless a check or a call succeeds. -/
def require (ok : Bool) (error : String) : Procedure σ κ Unit :=
  if ok then pure () else throw error

/-- Code with a local object, whose destructor releases what it owns where its scope ends. -/
def inScope (owns : τ → List (Handle κ)) (start : τ) (body : Procedure (τ × σ) κ α) :
    Procedure σ κ α :=
  ExceptT.mk fun state =>
    let after := execute body ((start, state.1), state.2)
    (after.1, (after.2.1.2, after.2.2.releaseAll (owns after.2.1.1)))

omit [DecidableEq κ] in
/-- Code that works on a part of the variables. -/
def zoom (part : σ → τ) (replace : τ → σ → σ) (body : Procedure τ κ α) : Procedure σ κ α :=
  ExceptT.mk fun state =>
    let after := execute body (part state.1, state.2)
    (after.1, (replace after.2.1 state.1, after.2.2))

omit [DecidableEq κ] in
/-- Code for the objects of a vector, one after the other. -/
def forEach (body : Procedure τ κ Unit) : Procedure (List τ) κ Unit :=
  let rec go : List τ → Ledger κ → Except String Unit × (List τ × Ledger κ)
    | [], ledger => (.ok (), ([], ledger))
    | object :: rest, ledger =>
        match execute body (object, ledger) with
        | (.error message, after) => (.error message, (after.1 :: rest, after.2))
        | (.ok (), after) =>
            let later := go rest after.2
            (later.1, (after.1 :: later.2.1, later.2.2))
  ExceptT.mk fun state => go state.1 state.2

/-- The ledger behind the acquisition of a resource. -/
structure Issued (held : Multiset (Handle κ)) (kind : κ) (needs : List (Handle κ))
    (handle : Handle κ) (ledger : Ledger κ) : Prop where
  isKind : handle.kind = kind
  needs : handle.needs = needs.map Handle.id
  holds : Holds ledger (handle ::ₘ held)

section Rules

variable {vars : σ} {ledger : Ledger κ} {held : Multiset (Handle κ)}
  {throws : σ × Ledger κ → Prop}

theorem ensures_useAll_bind (holds : Holds ledger held) {handles : List (Handle κ)}
    (members : ∀ handle ∈ handles, handle ∈ held) {next : Unit → Procedure σ κ α}
    {returns : α → σ × Ledger κ → Prop}
    (rest : Ensures (next ()) (vars, ledger) returns throws) :
    Ensures (useAll handles >>= next) (vars, ledger) returns throws := by
  have used : Ensures (useAll handles) (vars, ledger) (fun _ after => after = (vars, ledger))
      throws := ensures_modify (by rw [holds.useAll members])
  refine used.bind ?_
  rintro ⟨⟩ after rfl
  exact rest

theorem ensures_attempt (holds : Holds ledger held) {needs : List (Handle κ)}
    (members : ∀ handle ∈ needs, handle ∈ held) {ok : Bool} {kind : κ}
    {returns : Option (Handle κ) → σ × Ledger κ → Prop}
    (fails : returns none (vars, ledger))
    (succeeds : ok = true → ∀ handle ledger', Issued held kind needs handle ledger' →
      returns (some handle) (vars, ledger')) :
    Ensures (attempt ok kind needs) (vars, ledger) returns throws := by
  unfold attempt
  refine ensures_useAll_bind holds members (ensures_get_bind ?_)
  cases ok with
  | false => exact fails
  | true => exact succeeds rfl _ _ ⟨rfl, rfl, holds.issue kind needs⟩

theorem ensures_attempt_bind (holds : Holds ledger held) {needs : List (Handle κ)}
    (members : ∀ handle ∈ needs, handle ∈ held) {ok : Bool} {kind : κ}
    {next : Option (Handle κ) → Procedure σ κ α} {returns : α → σ × Ledger κ → Prop}
    (fails : Ensures (next none) (vars, ledger) returns throws)
    (succeeds : ok = true → ∀ handle ledger', Issued held kind needs handle ledger' →
      Ensures (next (some handle)) (vars, ledger') returns throws) :
    Ensures (attempt ok kind needs >>= next) (vars, ledger) returns throws :=
  Ensures.bind (ensures_attempt holds members fails succeeds) fun _ _ later => later

theorem ensures_acquire (holds : Holds ledger held) {needs : List (Handle κ)}
    (members : ∀ handle ∈ needs, handle ∈ held) {ok : Bool} {error : String} {kind : κ}
    {returns : Handle κ → σ × Ledger κ → Prop} (fails : throws (vars, ledger))
    (succeeds : ok = true → ∀ handle ledger', Issued held kind needs handle ledger' →
      returns handle (vars, ledger')) :
    Ensures (acquire ok error kind needs) (vars, ledger) returns throws := by
  unfold acquire
  exact ensures_attempt_bind holds members (ensures_throw fails) fun taken handle ledger' issued =>
    ensures_pure (succeeds taken handle ledger' issued)

theorem ensures_acquire_bind (holds : Holds ledger held) {needs : List (Handle κ)}
    (members : ∀ handle ∈ needs, handle ∈ held) {ok : Bool} {error : String} {kind : κ}
    {next : Handle κ → Procedure σ κ α} {returns : α → σ × Ledger κ → Prop}
    (fails : throws (vars, ledger))
    (succeeds : ok = true → ∀ handle ledger', Issued held kind needs handle ledger' →
      Ensures (next handle) (vars, ledger') returns throws) :
    Ensures (acquire ok error kind needs >>= next) (vars, ledger) returns throws :=
  Ensures.bind (ensures_acquire holds members fails succeeds) fun _ _ later => later

theorem ensures_release_bind {handles : List (Handle κ)} {next : Unit → Procedure σ κ α}
    {returns : α → σ × Ledger κ → Prop}
    (rest : Ensures (next ()) (vars, ledger.releaseAll handles) returns throws) :
    Ensures (release handles >>= next) (vars, ledger) returns throws := rest

omit [DecidableEq κ] in
theorem ensures_assign {change : σ → σ} {returns : Unit → σ × Ledger κ → Prop}
    (holds : returns () (change vars, ledger)) :
    Ensures (assign change) (vars, ledger) returns throws := holds

omit [DecidableEq κ] in
theorem ensures_assign_bind {change : σ → σ} {next : Unit → Procedure σ κ α}
    {returns : α → σ × Ledger κ → Prop}
    (rest : Ensures (next ()) (change vars, ledger) returns throws) :
    Ensures (assign change >>= next) (vars, ledger) returns throws := rest

omit [DecidableEq κ] in
theorem ensures_require {ok : Bool} {error : String} {returns : Unit → σ × Ledger κ → Prop}
    (succeeds : ok = true → returns () (vars, ledger))
    (fails : ok = false → throws (vars, ledger)) :
    Ensures (require ok error) (vars, ledger) returns throws := by
  cases ok with
  | false => exact ensures_throw (fails rfl)
  | true => exact ensures_pure (succeeds rfl)

omit [DecidableEq κ] in
theorem ensures_require_bind {ok : Bool} {error : String} {next : Unit → Procedure σ κ α}
    {returns : α → σ × Ledger κ → Prop}
    (succeeds : ok = true → Ensures (next ()) (vars, ledger) returns throws)
    (fails : ok = false → throws (vars, ledger)) :
    Ensures (require ok error >>= next) (vars, ledger) returns throws :=
  Ensures.bind (ensures_require succeeds fails) fun _ _ later => later

theorem ensures_inScope {owns : τ → List (Handle κ)} {start : τ} {body : Procedure (τ × σ) κ α}
    {returns : α → σ × Ledger κ → Prop}
    (inside : Ensures body ((start, vars), ledger)
      (fun value after => returns value (after.1.2, after.2.releaseAll (owns after.1.1)))
      (fun after => throws (after.1.2, after.2.releaseAll (owns after.1.1)))) :
    Ensures (inScope owns start body) (vars, ledger) returns throws := by
  unfold Ensures at inside ⊢
  have unfolded : execute (inScope owns start body) (vars, ledger) =
      let after := execute body ((start, vars), ledger)
      (after.1, (after.2.1.2, after.2.2.releaseAll (owns after.2.1.1))) := rfl
  rw [unfolded]
  rcases ran : execute body ((start, vars), ledger) with ⟨_ | value, after⟩ <;>
    rw [ran] at inside <;> exact inside

omit [DecidableEq κ] in
theorem ensures_zoom {part : σ → τ} {replace : τ → σ → σ} {body : Procedure τ κ α}
    {returns : α → σ × Ledger κ → Prop}
    (inside : Ensures body (part vars, ledger)
      (fun value after => returns value (replace after.1 vars, after.2))
      (fun after => throws (replace after.1 vars, after.2))) :
    Ensures (zoom part replace body) (vars, ledger) returns throws := by
  unfold Ensures at inside ⊢
  have unfolded : execute (zoom part replace body) (vars, ledger) =
      let after := execute body (part vars, ledger)
      (after.1, (replace after.2.1 vars, after.2.2)) := rfl
  rw [unfolded]
  rcases ran : execute body (part vars, ledger) with ⟨_ | value, after⟩ <;>
    rw [ran] at inside <;> exact inside

omit [DecidableEq κ] in
theorem ensures_zoom_bind {part : σ → τ} {replace : τ → σ → σ} {body : Procedure τ κ α}
    {next : α → Procedure σ κ β} {returns : β → σ × Ledger κ → Prop}
    (inside : Ensures body (part vars, ledger)
      (fun value after => Ensures (next value) (replace after.1 vars, after.2) returns throws)
      (fun after => throws (replace after.1 vars, after.2))) :
    Ensures (zoom part replace body >>= next) (vars, ledger) returns throws :=
  Ensures.bind (ensures_zoom inside) fun _ _ later => later

omit [DecidableEq κ] in
theorem ensures_forEach_cons {body : Procedure τ κ Unit} {object : τ} {rest : List τ}
    {returns : Unit → List τ × Ledger κ → Prop} {throws : List τ × Ledger κ → Prop}
    (first : Ensures body (object, ledger)
      (fun _ after => Ensures (forEach body) (rest, after.2)
        (fun value later => returns value (after.1 :: later.1, later.2))
        (fun later => throws (after.1 :: later.1, later.2)))
      (fun after => throws (after.1 :: rest, after.2))) :
    Ensures (forEach body) (object :: rest, ledger) returns throws := by
  have unfolded : execute (forEach body) (object :: rest, ledger) =
      match execute body (object, ledger) with
      | (.error message, after) => (.error message, (after.1 :: rest, after.2))
      | (.ok (), after) =>
          let later := execute (forEach body) (rest, after.2)
          (later.1, (after.1 :: later.2.1, later.2.2)) := rfl
  unfold Ensures at first ⊢
  rw [unfolded]
  rcases ran : execute body (object, ledger) with ⟨message | ⟨⟩, after⟩ <;> rw [ran] at first
  · exact first
  · rcases looped : execute (forEach body) (rest, after.2) with ⟨message | ⟨⟩, later⟩ <;>
      simpa only [looped] using first

end Rules

/-! ### What functions acquire -/

section Specs

variable (lossy : κ → Prop)

/-- A function that acquires what the object it returns owns, and nothing if it throws. It uses the
resources of the base, and it leaves the variables alone. -/
def Acquires (action : Procedure σ κ α) (custody : α → List (Handle κ)) (base : List (Handle κ))
    (post : α → Prop) : Prop :=
  ∀ vars ledger held, Holds ledger held → Closed held → (∀ handle ∈ base, handle ∈ held) →
    Ensures action (vars, ledger)
      (fun value after => after.1 = vars ∧ post value ∧
        Holds after.2 ((custody value : Multiset (Handle κ)) + held))
      (fun after => after.1 = vars ∧ HoldsBut lossy after.2 held)

/-- A member function that changes what its object owns, whether it returns or throws. -/
def Extends (action : Procedure τ κ Unit) (custody : τ → List (Handle κ)) (base : List (Handle κ))
    (pre post fail : τ → Prop) : Prop :=
  ∀ object ledger held, pre object →
    Holds ledger ((custody object : Multiset (Handle κ)) + held) → Closed held →
      (∀ handle ∈ base, handle ∈ held) →
        Ensures action (object, ledger)
          (fun _ after => post after.1 ∧
            Holds after.2 ((custody after.1 : Multiset (Handle κ)) + held))
          (fun after => fail after.1 ∧
            HoldsBut lossy after.2 ((custody after.1 : Multiset (Handle κ)) + held))

/-- A member function that keeps what is known of its object. -/
abbrev Keeps (action : Procedure τ κ Unit) (custody : τ → List (Handle κ))
    (base : List (Handle κ)) (known : τ → Prop) : Prop :=
  Extends lossy action custody base known known known

variable {lossy} {action : Procedure τ κ Unit} {custody : τ → List (Handle κ)}
  {base : List (Handle κ)} {pre post fail : τ → Prop}

omit [DecidableEq κ] in
/-- Call a function and go on with what it returns. -/
theorem Acquires.bind {acquisition : Procedure σ κ α} {owns : α → List (Handle κ)}
    {known : α → Prop}
    (acquires : Acquires lossy acquisition owns base known) {vars : σ} {ledger : Ledger κ}
    {held : Multiset (Handle κ)} (holds : Holds ledger held) (closed : Closed held)
    (members : ∀ handle ∈ base, handle ∈ held) {next : α → Procedure σ κ β}
    {returns : β → σ × Ledger κ → Prop} {throws : σ × Ledger κ → Prop}
    (fails : ∀ ledger', HoldsBut lossy ledger' held → throws (vars, ledger'))
    (succeeds : ∀ value ledger', known value →
      Holds ledger' ((owns value : Multiset (Handle κ)) + held) →
        Ensures (next value) (vars, ledger') returns throws) :
    Ensures (acquisition >>= next) (vars, ledger) returns throws := by
  refine Ensures.bind ((acquires vars ledger held holds closed members).imp
    (fun _ _ returned => returned) ?_) ?_
  · rintro ⟨_, ledger'⟩ ⟨rfl, now⟩
    exact fails ledger' now
  · rintro value ⟨_, ledger'⟩ ⟨rfl, knows, now⟩
    exact succeeds value ledger' knows now

omit [DecidableEq κ] in
/-- Call a member function of the same object. -/
theorem Extends.call_bind (extends' : Extends lossy action custody base pre post fail) {object : τ}
    {ledger : Ledger κ} {held : Multiset (Handle κ)} (start : pre object)
    (holds : Holds ledger ((custody object : Multiset (Handle κ)) + held)) (closed : Closed held)
    (members : ∀ handle ∈ base, handle ∈ held) {next : Unit → Procedure τ κ β}
    {returns : β → τ × Ledger κ → Prop} {throws : τ × Ledger κ → Prop}
    (fails : ∀ object' ledger', fail object' →
      HoldsBut lossy ledger' ((custody object' : Multiset (Handle κ)) + held) →
        throws (object', ledger'))
    (succeeds : ∀ object' ledger', post object' →
      Holds ledger' ((custody object' : Multiset (Handle κ)) + held) →
        Ensures (next ()) (object', ledger') returns throws) :
    Ensures (action >>= next) (object, ledger) returns throws := by
  refine Ensures.bind ((extends' object ledger held start holds closed members).imp
    (fun _ _ returned => returned) ?_) ?_
  · rintro ⟨object', ledger'⟩ ⟨known, now⟩
    exact fails object' ledger' known now
  · rintro ⟨⟩ ⟨object', ledger'⟩ ⟨known, now⟩
    exact succeeds object' ledger' known now

omit [DecidableEq κ] in
/-- Call a member function of a part of the variables. -/
theorem Extends.zoom_bind (extends' : Extends lossy action custody base pre post fail)
    {part : σ → τ} {replace : τ → σ → σ} {vars : σ} {ledger : Ledger κ}
    {held : Multiset (Handle κ)} (start : pre (part vars))
    (holds : Holds ledger ((custody (part vars) : Multiset (Handle κ)) + held))
    (closed : Closed held) (members : ∀ handle ∈ base, handle ∈ held)
    {next : Unit → Procedure σ κ β}
    {returns : β → σ × Ledger κ → Prop} {throws : σ × Ledger κ → Prop}
    (fails : ∀ object ledger', fail object →
      HoldsBut lossy ledger' ((custody object : Multiset (Handle κ)) + held) →
        throws (replace object vars, ledger'))
    (succeeds : ∀ object ledger', post object →
      Holds ledger' ((custody object : Multiset (Handle κ)) + held) →
        Ensures (next ()) (replace object vars, ledger') returns throws) :
    Ensures (zoom part replace action >>= next) (vars, ledger) returns throws := by
  refine ensures_zoom_bind ((extends' _ ledger held start holds closed members).imp ?_ ?_)
  · rintro ⟨⟩ ⟨object, ledger'⟩ ⟨known, now⟩
    exact succeeds object ledger' known now
  · rintro ⟨object, ledger'⟩ ⟨known, now⟩
    exact fails object ledger' known now

omit [DecidableEq κ] in
theorem extends_pure (keeps : ∀ object, pre object → post object) :
    Extends lossy (pure ()) custody base pre post fail :=
  fun object _ _ starts holds _ _ => ensures_pure ⟨keeps object starts, holds⟩

omit [DecidableEq κ] in
theorem Extends.imp {base' : List (Handle κ)} {pre' post' fail' : τ → Prop}
    (extends' : Extends lossy action custody base pre post fail) (sub : base ⊆ base')
    (starts : ∀ object, pre' object → pre object) (ends : ∀ object, post object → post' object)
    (fails : ∀ object, fail object → fail' object) :
    Extends lossy action custody base' pre' post' fail' := by
  intro object ledger held start holds closed members
  refine (extends' object ledger held (starts object start) holds closed fun handle member =>
    members handle (sub member)).imp ?_ ?_
  · rintro ⟨⟩ after ⟨known, holds⟩
    exact ⟨ends _ known, holds⟩
  · rintro after ⟨known, holds⟩
    exact ⟨fails _ known, holds⟩

omit [DecidableEq κ] in
/-- A loop over objects of which each can be destroyed in front of the base. -/
theorem keeps_forEach {known : τ → Prop}
    (ordered : ∀ object, known object → Over base (custody object))
    (each : Keeps lossy action custody base known) :
    Keeps lossy (forEach action) (fun objects => objects.flatMap custody) base
      (fun objects => ∀ object ∈ objects, known object) := by
  intro objects
  have owned : ∀ (object : τ) rest (held : Multiset (Handle κ)),
      (((object :: rest).flatMap custody : List _) : Multiset (Handle κ)) + held =
        (custody object : Multiset (Handle κ)) + ((rest.flatMap custody : List _) + held) := by
    intro object rest held
    rw [List.flatMap_cons, ← Multiset.coe_add, add_assoc]
  induction objects with
  | nil => exact fun ledger held starts holds _ _ => ⟨starts, holds⟩
  | cons object rest ih =>
      intro ledger held starts holds closed members
      obtain ⟨first, others⟩ := List.forall_mem_cons.mp starts
      have over_rest : Over base (rest.flatMap custody) := by
        rw [List.flatMap_def]
        refine over_flatten fun block member => ?_
        obtain ⟨other, inside, rfl⟩ := List.mem_map.mp member
        exact ordered other (others other inside)
      have step := each object ledger _ first (owned object rest held ▸ holds)
        (closed.add over_rest members)
        fun handle member => Multiset.mem_add.mpr (.inr (members handle member))
      refine ensures_forEach_cons (step.imp ?_ ?_)
      · rintro ⟨⟩ ⟨object', ledger'⟩ ⟨known', now⟩
        have moved : ∀ rest' : List τ,
            ((rest'.flatMap custody : List _) : Multiset (Handle κ)) +
              ((custody object' : Multiset (Handle κ)) + held) =
                (((object' :: rest').flatMap custody : List _) : Multiset (Handle κ)) + held :=
          fun rest' => by rw [owned, add_left_comm]
        refine (ih ledger' ((custody object' : Multiset (Handle κ)) + held) others
          (by rw [add_left_comm]; exact now) (closed.add (ordered object' known') members)
          fun handle member => Multiset.mem_add.mpr (.inr (members handle member))).imp ?_ ?_
        · rintro ⟨⟩ ⟨rest', ledger''⟩ ⟨others', after⟩
          exact ⟨List.forall_mem_cons.mpr ⟨known', others'⟩, moved rest' ▸ after⟩
        · rintro ⟨rest', ledger''⟩ ⟨others', after⟩
          exact ⟨List.forall_mem_cons.mpr ⟨known', others'⟩, HoldsBut.congr after (moved rest')⟩
      · rintro ⟨object', ledger'⟩ ⟨known', now⟩
        exact ⟨List.forall_mem_cons.mpr ⟨known', others⟩,
          HoldsBut.congr now (owned object' rest held).symm⟩

end Specs

end Custody
