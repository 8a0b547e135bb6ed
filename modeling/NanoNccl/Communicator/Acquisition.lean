import Mathlib.Tactic.Abel
import NanoNccl.Communicator.Objects

/-!
# What the objects of a communicator acquire

Whichever call fails, a function that builds an object of the RDMA transport gives back what it has
acquired, apart from the memory of a `MappedBuffer` whose constructor throws.
-/

namespace NanoNccl
namespace Communicator
namespace Objects

open Custody Throwing Rdma

variable {σ : Type} (lossy : Kind → Prop) {endpoint : RdmaEndpoint}

/-! ### Host memory -/

theorem extends_resetMapped (calls : MappedCalls) :
    Extends lossy (resetMapped calls) Option.toList [] (fun array => array = none)
      (fun array => ∃ memory, array = some memory ∧ memory.needs = [])
      (fun array => ∀ memory ∈ array, memory.needs = []) := by
  rintro _ ledger held rfl holds - -
  replace holds : Holds ledger held := by simpa using holds
  unfold resetMapped
  refine ensures_get_bind ?_
  refine ensures_release_bind ?_
  refine ensures_assign_bind ?_
  refine ensures_acquire_bind holds (by simp) ?_ fun _ memory ledger' issued => ?_
  · exact ⟨by simp, by simpa using holds.but⟩
  have held_now : Holds ledger' (((some memory).toList : Multiset Object) + held) := by
    simpa using issued.holds
  refine ensures_assign_bind (ensures_require (fun _ => ⟨⟨memory, rfl, issued.needs⟩, held_now⟩)
    fun _ => ⟨?_, held_now.but⟩)
  rintro _ ⟨⟩
  exact issued.needs

theorem acquires_newMappedBuffer {calls : MappedCalls} (loses : ¬calls.Complete → lossy .mapped) :
    Acquires lossy (newMappedBuffer calls : Procedure σ Kind Object) (fun memory => [memory]) []
      (fun memory => memory.needs = []) := by
  rintro vars ledger held holds - -
  unfold newMappedBuffer
  refine ensures_acquire_bind holds (by simp) ?_ fun allocates memory ledger' issued => ?_
  · exact ⟨rfl, holds.but⟩
  refine ensures_require_bind (fun _ => ensures_pure ?_) fun unknown => ?_
  · exact ⟨rfl, issued.needs, by simpa using issued.holds⟩
  · have incomplete : ¬calls.Complete := by simp [MappedCalls.Complete, allocates, unknown]
    refine ⟨rfl, .inr ⟨memory, issued.isKind ▸ loses incomplete, issued.needs, ?_⟩⟩
    rw [add_comm, Multiset.singleton_add]
    exact issued.holds

/-! ### Verbs -/

/-- An endpoint can be closed. -/
def RdmaEndpoint.Sound (endpoint : RdmaEndpoint) : Prop :=
  endpoint.pd.needs = [endpoint.context.id] ∧ endpoint.context.needs = []

theorem RdmaEndpoint.Sound.over (sound : endpoint.Sound) (base : List Object) :
    Over base endpoint.custody := by
  simp [RdmaEndpoint.custody, sound.1, sound.2]

/-- The guards close a device that is not used. -/
theorem acquires_tryDevice (list : Object) (calls : DeviceCalls) :
    Acquires lossy
      (inScope Guards.custody ⟨none, none⟩ (tryDevice list calls) :
        Procedure σ Kind (Option RdmaEndpoint))
      (fun found => found.elim [] RdmaEndpoint.custody) [list]
      (fun found => ∀ endpoint ∈ found, endpoint.Sound) := by
  intro vars ledger held holds closed members
  refine ensures_inScope ?_
  unfold tryDevice
  refine ensures_useAll_bind holds members ?_
  refine ensures_attempt_bind holds (by simp) (ensures_pure ?_) ?_
  · exact ⟨rfl, by simp, by simpa [Guards.custody, Ledger.releaseAll] using holds⟩
  intro _ ctx ledger' issued
  have on_top : Holds ledger' (([ctx] : Multiset Object) + held) := by simpa using issued.holds
  have alone : Over [] [ctx] := over_of_free (by simpa using issued.needs)
  have shut : Holds (ledger'.releaseAll [ctx]) held := on_top.releaseAll closed alone (by simp)
  refine ensures_assign_bind ?_
  have nothing : Holds (ledger'.releaseAll [ctx]) ((([] : List Object) : Multiset Object) + held) :=
    by simpa using shut
  split
  · exact ensures_pure ⟨rfl, by simp, nothing⟩
  refine ensures_require_bind (fun _ => ?_) fun _ => ⟨rfl, shut.but⟩
  refine ensures_acquire_bind issued.holds (by simp) ⟨rfl, shut.but⟩ fun _ pd ledger'' granted => ?_
  refine ensures_assign_bind (ensures_pure ⟨rfl, ?_, ?_⟩)
  · rintro _ ⟨⟩
    exact ⟨granted.needs, issued.needs⟩
  · have both : Holds ledger'' (([pd, ctx] : Multiset Object) + held) := by
      simpa using granted.holds
    exact both

theorem acquires_findDevice (list : Object) (hasIfname : Bool) (devices : List DeviceCalls) :
    Acquires lossy (findDevice list hasIfname devices : Procedure σ Kind RdmaEndpoint)
      RdmaEndpoint.custody [list] RdmaEndpoint.Sound := by
  induction devices with
  | nil => exact fun vars ledger held holds _ _ => ensures_throw ⟨rfl, holds.but⟩
  | cons device rest ih =>
      intro vars ledger held holds closed members
      refine (acquires_tryDevice lossy list device vars ledger held holds closed members).bind ?_
      rintro (_ | endpoint) ⟨_, ledger'⟩ ⟨rfl, sound, now⟩
      · exact ih _ ledger' held (by simpa using now) closed members
      · exact ensures_pure ⟨rfl, sound endpoint rfl, now⟩

theorem acquires_createFromEnvironment (calls : EndpointCalls) :
    Acquires lossy (createFromEnvironment calls : Procedure σ Kind RdmaEndpoint)
      RdmaEndpoint.custody [] RdmaEndpoint.Sound := by
  intro vars ledger held holds closed _
  unfold createFromEnvironment
  refine ensures_require_bind (fun _ => ?_) fun _ => ⟨rfl, holds.but⟩
  refine ensures_acquire_bind holds (by simp) ⟨rfl, holds.but⟩ fun _ list ledger' issued => ?_
  have alone : Over [] [list] := over_of_free (by simpa using issued.needs)
  have on_top : Closed (list ::ₘ held) := by simpa using closed.add alone (by simp)
  have shut : ∀ ledger'', HoldsBut lossy ledger'' (list ::ₘ held) →
      HoldsBut lossy (ledger''.releaseAll [list]) held := fun ledger'' after => by
    have split : HoldsBut lossy ledger'' (([list] : Multiset Object) + held) := by simpa using after
    exact split.releaseAll closed alone (by simp)
  refine ensures_inScope ?_
  refine ensures_require_bind (fun _ => ?_) fun _ => ⟨rfl, shut ledger' issued.holds.but⟩
  refine (acquires_findDevice lossy list _ _ ([list], vars) ledger' _ issued.holds on_top
    (by simp)).imp ?_ ?_
  · rintro endpoint ⟨_, ledger''⟩ ⟨rfl, sound, now⟩
    refine ⟨rfl, sound, ?_⟩
    have under : Holds ledger''
        (([list] : Multiset Object) + ((endpoint.custody : Multiset Object) + held)) := by
      simpa [Multiset.cons_add, Multiset.add_cons] using now
    exact under.releaseAll (closed.add (sound.over []) (by simp)) alone (by simp)
  · rintro ⟨_, ledger''⟩ ⟨rfl, after⟩
    exact ⟨rfl, shut ledger'' after⟩

/-- A queue pair of this endpoint can be destroyed. -/
def RdmaQp.Sound (endpoint : RdmaEndpoint) (qp : RdmaQp) : Prop :=
  qp.qp.needs = [endpoint.pd.id, qp.cq.id] ∧ qp.cq.needs = [endpoint.context.id]

theorem RdmaQp.Sound.over {qp : RdmaQp} (sound : qp.Sound endpoint) :
    Over endpoint.custody qp.custody := by
  simp [RdmaQp.custody, RdmaEndpoint.custody, sound.1, sound.2]

theorem acquires_createInit (calls : QpCalls) :
    Acquires lossy (createInit endpoint calls : Procedure σ Kind RdmaQp) RdmaQp.custody
      endpoint.custody (RdmaQp.Sound endpoint) := by
  intro vars ledger held holds closed members
  have pd_in : endpoint.pd ∈ held := members _ (by simp [RdmaEndpoint.custody])
  have context_in : endpoint.context ∈ held := members _ (by simp [RdmaEndpoint.custody])
  unfold createInit
  refine ensures_acquire_bind holds (by simpa using context_in) ⟨rfl, holds.but⟩
    fun _ cq ledger' issued => ?_
  have needs : cq.needs = [endpoint.context.id] := issued.needs
  have over_cq : Over endpoint.custody [cq] := by simp [RdmaEndpoint.custody, needs]
  have only_cq : Holds ledger' (([cq] : Multiset Object) + held) := by simpa using issued.holds
  have members_cq : ∀ handle ∈ [endpoint.pd, cq], handle ∈ cq ::ₘ held := by
    simp [pd_in]
  refine ensures_attempt_bind issued.holds members_cq ?_ fun _ qp ledger'' granted => ?_
  · refine ensures_release_bind (ensures_throw ⟨rfl, ?_⟩)
    exact (only_cq.releaseAll closed over_cq members).but
  have sound : RdmaQp.Sound endpoint ⟨qp, cq⟩ := ⟨granted.needs, needs⟩
  have both : Holds ledger'' ((RdmaQp.custody ⟨qp, cq⟩ : Multiset Object) + held) := by
    simpa [RdmaQp.custody] using granted.holds
  cases calls.modifyQpToInit with
  | true => exact ensures_pure ⟨rfl, sound, both⟩
  | false =>
      refine ensures_release_bind ?_
      refine ensures_release_bind (ensures_throw ?_)
      exact ⟨rfl, (both.releaseAll closed sound.over members).but⟩

/-! ### Resources of a channel -/

theorem acquires_tryRegDmabuf (memory : Object) (calls : FifoCalls) :
    Acquires lossy (tryRegDmabuf endpoint memory calls : Procedure σ Kind (Option Object))
      Option.toList [endpoint.pd, memory]
      (fun mr => ∀ registered ∈ mr, registered.needs = [endpoint.pd.id, memory.id]) := by
  intro vars ledger held holds closed members
  have memory_in : memory ∈ held := members memory (by simp)
  have pd_in : endpoint.pd ∈ held := members endpoint.pd (by simp)
  unfold tryRegDmabuf
  refine ensures_attempt_bind holds (by simpa using memory_in) ?_ fun _ fd ledger' issued => ?_
  · exact ensures_pure ⟨rfl, by simp, by simpa using holds⟩
  have over_fd : Over [memory] [fd] := by simp [issued.needs]
  have members_fd : ∀ handle ∈ [endpoint.pd, memory], handle ∈ fd ::ₘ held := by
    simp [pd_in, memory_in]
  refine ensures_attempt_bind issued.holds members_fd ?_ fun _ mr ledger'' granted => ?_
  · refine ensures_release_bind (ensures_pure ⟨rfl, by simp, ?_⟩)
    have under : Holds ledger' (([fd] : Multiset Object) + held) := by simpa using issued.holds
    simpa using under.releaseAll closed over_fd (by simpa using memory_in)
  · refine ensures_release_bind (ensures_pure ⟨rfl, ?_, ?_⟩)
    · rintro _ ⟨⟩
      exact granted.needs
    have over_mr : Over [endpoint.pd, memory] [mr] := by simp [granted.needs]
    have under : Holds ledger'' (([fd] : Multiset Object) + (([mr] : Multiset Object) + held)) := by
      simpa [Multiset.cons_swap fd mr] using granted.holds
    exact under.releaseAll (closed.add over_mr members) over_fd (by simp [memory_in])

theorem acquires_registerDevice (memory : Object) (calls : FifoCalls) :
    Acquires lossy (registerDevice endpoint memory calls : Procedure σ Kind Object)
      (fun mr => [mr]) [endpoint.pd, memory]
      (fun mr => mr.needs = [endpoint.pd.id, memory.id]) := by
  intro vars ledger held holds closed members
  unfold registerDevice
  refine ensures_require_bind (fun _ => ?_) fun _ => ⟨rfl, holds.but⟩
  refine (acquires_tryRegDmabuf lossy memory calls vars ledger held holds closed members).bind ?_
  rintro (_ | mr) ⟨_, ledger'⟩ ⟨rfl, sound, now⟩
  · replace now : Holds ledger' held := by simpa using now
    refine ensures_acquire now members ⟨rfl, now.but⟩ fun _ mr ledger'' granted => ?_
    exact ⟨rfl, granted.needs, by simpa using granted.holds⟩
  · exact ensures_pure ⟨rfl, sound mr rfl, now⟩

namespace ChannelResources

variable {resources : ChannelResources}

/-- Resources can be destroyed in front of their endpoint. -/
structure Sound (endpoint : RdmaEndpoint) (resources : ChannelResources) : Prop where
  qp : ∀ qp ∈ resources.qp, qp.Sound endpoint
  ctsRegistered : ∀ mr ∈ resources.ctsRegistered, ∃ slots ∈ resources.ctsSlots,
    mr.needs = [endpoint.pd.id, slots.id]
  registered : ∀ mr ∈ resources.registered, ∃ fifo ∈ resources.fifo,
    mr.needs = [endpoint.pd.id, fifo.id]
  fifoMemory : ∀ mr ∈ resources.fifoMemory, ∃ fifo ∈ resources.deviceFifo,
    mr.needs = [endpoint.pd.id, fifo.id]
  ctsSlots : ∀ memory ∈ resources.ctsSlots, memory.needs = []
  payloadBytes : ∀ memory ∈ resources.payloadBytes, memory.needs = []
  control : ∀ memory ∈ resources.control, memory.needs = []
  deviceFifo : ∀ memory ∈ resources.deviceFifo, memory.needs = []
  fifo : ∀ memory ∈ resources.fifo, memory.needs = []

/-- No queue pair is left in the resources. -/
theorem Sound.withoutQp (sound : resources.Sound endpoint) :
    Sound endpoint { resources with qp := none } :=
  { sound with qp := by rintro _ ⟨⟩ }

theorem over_registration {mr memory : Option Object} {base : List Object}
    (needs : ∀ region ∈ mr, ∃ data ∈ memory, region.needs = [endpoint.pd.id, data.id])
    (endpoint_in : endpoint.custody ⊆ base) (memory_in : memory.toList ⊆ base) :
    Over base mr.toList := by
  refine over_of_needs fun region member => ?_
  obtain ⟨data, here, same⟩ := needs region (by simpa using member)
  have pd_in : endpoint.pd ∈ base := endpoint_in (by simp [RdmaEndpoint.custody])
  have data_in : data ∈ base := memory_in (by simpa using here)
  rw [same]
  simp only [List.cons_subset, List.nil_subset, and_true]
  exact ⟨List.mem_map_of_mem pd_in, List.mem_map_of_mem data_in⟩

theorem Sound.over_memory (sound : resources.Sound endpoint) :
    Over endpoint.custody resources.memory := by
  have free : ∀ (memory : Option Object) (base : List Object),
      (∀ region ∈ memory, region.needs = []) → Over base memory.toList :=
    fun memory base needs => over_of_free fun region member => needs region (by simpa using member)
  simp only [memory, over_append]
  refine ⟨⟨⟨⟨⟨⟨⟨?_, ?_⟩, ?_⟩, ?_⟩, ?_⟩, ?_⟩, ?_⟩, ?_⟩
  · refine over_registration sound.ctsRegistered (fun handle => ?_) fun handle => ?_ <;>
      simp only [List.mem_append] <;> tauto
  · exact free _ _ sound.ctsSlots
  · refine over_registration sound.registered (fun handle => ?_) fun handle => ?_ <;>
      simp only [List.mem_append] <;> tauto
  · refine over_registration sound.fifoMemory (fun handle => ?_) fun handle => ?_ <;>
      simp only [List.mem_append] <;> tauto
  · exact free _ _ sound.payloadBytes
  · exact free _ _ sound.control
  · exact free _ _ sound.deviceFifo
  · exact free _ _ sound.fifo

theorem Sound.over (sound : resources.Sound endpoint) :
    Over endpoint.custody resources.custody := by
  refine Over.append ?_ sound.over_memory
  cases present : resources.qp with
  | none => trivial
  | some qp => exact (sound.qp qp present).over.mono (List.subset_append_right _ _)

/-- Resources while `make_rdma_resources` builds them. -/
def making (control payloadBytes : Option Object) : ChannelResources :=
  { null with control := control, payloadBytes := payloadBytes }

theorem custody_making (control payloadBytes : Option Object) :
    (making control payloadBytes).custody = payloadBytes.toList ++ control.toList := by
  simp [making, custody, memory, null]

/-- Resources as `make_rdma_resources` leaves them. -/
def Made (resources : ChannelResources) : Prop :=
  ∃ control payloadBytes : Object, control.needs = [] ∧ payloadBytes.needs = [] ∧
    resources = making control payloadBytes

end ChannelResources

theorem acquires_makeRdmaResources (control payloadBytes : MappedCalls) :
    Acquires lossy (makeRdmaResources control payloadBytes : Procedure σ Kind ChannelResources)
      ChannelResources.custody [] ChannelResources.Made := by
  intro vars ledger held holds closed _
  -- Whatever the resources have when a call fails is released.
  have shut : ∀ control payloadBytes ledger', (∀ memory ∈ control, memory.needs = []) →
      (∀ memory ∈ payloadBytes, memory.needs = []) → HoldsBut lossy ledger'
        (((ChannelResources.making control payloadBytes).custody : Multiset Object) + held) →
        HoldsBut lossy
          (ledger'.releaseAll (ChannelResources.making control payloadBytes).custody) held := by
    intro control payloadBytes ledger' free free' now
    have ordered : Over [] (ChannelResources.making control payloadBytes).custody := by
      refine over_of_free fun handle member => ?_
      rw [ChannelResources.custody_making, List.mem_append, Option.mem_toList,
        Option.mem_toList] at member
      exact member.elim (free' handle) (free handle)
    exact now.releaseAll closed ordered (by simp)
  refine ensures_inScope ?_
  refine ensures_zoom_bind ?_
  refine (extends_resetMapped lossy control none ledger held rfl (by simpa using holds) closed
    (by simp)).imp ?_ ?_
  · rintro ⟨⟩ ⟨_, ledger'⟩ ⟨⟨first, rfl, free⟩, now⟩
    have alone : Over [] [first] := over_of_free (by simpa using free)
    have closed' : Closed (first ::ₘ held) := by simpa using closed.add alone (by simp)
    refine ensures_zoom_bind ?_
    refine (extends_resetMapped lossy payloadBytes none ledger' (first ::ₘ held) rfl
      (by simpa using now) closed' (by simp)).imp ?_ ?_
    · rintro ⟨⟩ ⟨_, ledger''⟩ ⟨⟨second, rfl, free'⟩, now⟩
      refine ensures_get_bind ?_
      refine ensures_assign_bind (ensures_pure ?_)
      refine ⟨rfl, ⟨first, second, free, free', rfl⟩, ?_⟩
      have both : Holds ledger''
          (((ChannelResources.making first second).custody : Multiset Object) + held) := by
        simpa [ChannelResources.custody_making, Multiset.cons_swap second first] using now
      exact both
    · rintro ⟨array, ledger''⟩ ⟨free', now⟩
      refine ⟨rfl, shut first array ledger'' (by simpa using free) free' ?_⟩
      refine HoldsBut.congr now ?_
      rw [ChannelResources.custody_making, ← Multiset.coe_add, add_assoc]
      simp
  · rintro ⟨array, ledger'⟩ ⟨free, now⟩
    refine ⟨rfl, shut array none ledger' free (by simp) ?_⟩
    simpa [ChannelResources.custody_making] using now

namespace ChannelResources

variable (resources : ChannelResources)

/-- What the resources own, as a sum. -/
theorem coe_custody :
    (resources.custody : Multiset Object) =
      (resources.qp.elim [] RdmaQp.custody : List Object) + resources.ctsRegistered.toList +
        resources.ctsSlots.toList + resources.registered.toList + resources.fifoMemory.toList +
        resources.payloadBytes.toList + resources.control.toList + resources.deviceFifo.toList +
        resources.fifo.toList := by
  simp only [custody, memory, ← Multiset.coe_add, add_assoc]

variable {resources} (handle : Object)

theorem custody_fifo (absent : resources.fifo = none) :
    (({ resources with fifo := some handle } : ChannelResources).custody : Multiset Object) =
      handle ::ₘ resources.custody := by
  simp only [coe_custody, absent, Option.toList_some, Option.toList_none, Multiset.coe_nil,
    Multiset.coe_singleton, ← Multiset.singleton_add]
  abel

theorem custody_deviceFifo (absent : resources.deviceFifo = none) :
    (({ resources with deviceFifo := some handle } : ChannelResources).custody :
      Multiset Object) = handle ::ₘ resources.custody := by
  simp only [coe_custody, absent, Option.toList_some, Option.toList_none, Multiset.coe_nil,
    Multiset.coe_singleton, ← Multiset.singleton_add]
  abel

theorem custody_registered (absent : resources.registered = none) :
    (({ resources with registered := some handle } : ChannelResources).custody :
      Multiset Object) = handle ::ₘ resources.custody := by
  simp only [coe_custody, absent, Option.toList_some, Option.toList_none, Multiset.coe_nil,
    Multiset.coe_singleton, ← Multiset.singleton_add]
  abel

theorem custody_fifoMemory (absent : resources.fifoMemory = none) :
    (({ resources with fifoMemory := some handle } : ChannelResources).custody :
      Multiset Object) = handle ::ₘ resources.custody := by
  simp only [coe_custody, absent, Option.toList_some, Option.toList_none, Multiset.coe_nil,
    Multiset.coe_singleton, ← Multiset.singleton_add]
  abel

theorem custody_ctsSlots (absent : resources.ctsSlots = none) :
    (({ resources with ctsSlots := some handle } : ChannelResources).custody :
      Multiset Object) = handle ::ₘ resources.custody := by
  simp only [coe_custody, absent, Option.toList_some, Option.toList_none, Multiset.coe_nil,
    Multiset.coe_singleton, ← Multiset.singleton_add]
  abel

theorem custody_ctsRegistered (absent : resources.ctsRegistered = none) :
    (({ resources with ctsRegistered := some handle } : ChannelResources).custody :
      Multiset Object) = handle ::ₘ resources.custody := by
  simp only [coe_custody, absent, Option.toList_some, Option.toList_none, Multiset.coe_nil,
    Multiset.coe_singleton, ← Multiset.singleton_add]
  abel

theorem custody_qp (absent : resources.qp = none) (qp : RdmaQp) :
    (({ resources with qp := some qp } : ChannelResources).custody : Multiset Object) =
      (qp.custody : Multiset Object) + resources.custody := by
  simp only [coe_custody, absent, Option.elim_some, Option.elim_none, Multiset.coe_nil]
  abel

/-- Nothing is registered for the CTS exchange yet. -/
structure NoCts (endpoint : RdmaEndpoint) (resources : ChannelResources) : Prop where
  sound : resources.Sound endpoint
  ctsSlots : resources.ctsSlots = none
  ctsRegistered : resources.ctsRegistered = none

/-- There is no FIFO yet. -/
structure NoFifo (endpoint : RdmaEndpoint) (resources : ChannelResources) : Prop extends
    NoCts endpoint resources where
  fifo : resources.fifo = none
  deviceFifo : resources.deviceFifo = none
  registered : resources.registered = none
  fifoMemory : resources.fifoMemory = none

end ChannelResources

open ChannelResources

theorem extends_registerRdmaCtsBuffer (ibvRegMr : Bool) (qp : Option RdmaQp) :
    Extends lossy (registerRdmaCtsBuffer endpoint ibvRegMr) custody endpoint.custody
      (fun resources => NoCts endpoint resources ∧ resources.qp = qp)
      (fun resources => Sound endpoint resources ∧ resources.qp = qp) (Sound endpoint) := by
  rintro resources ledger held ⟨starts, same⟩ holds closed members
  have pd_in : endpoint.pd ∈ held := members _ (by simp [RdmaEndpoint.custody])
  unfold registerRdmaCtsBuffer
  refine ensures_acquire_bind holds (by simp) ⟨starts.sound, holds.but⟩
    fun _ slots ledger' issued => ?_
  refine ensures_assign_bind ?_
  have now := issued.holds
  rw [← Multiset.cons_add, ← custody_ctsSlots slots starts.ctsSlots] at now
  have sound : Sound endpoint { resources with ctsSlots := some slots } :=
    { starts.sound with
      ctsRegistered := by simp [starts.ctsRegistered]
      ctsSlots := by
        rintro _ ⟨⟩
        exact issued.needs }
  have slots_in : ∀ handle ∈ [endpoint.pd, slots], handle ∈
      (({ resources with ctsSlots := some slots } : ChannelResources).custody : Multiset Object) +
        held := by
    simp [pd_in, custody_ctsSlots slots starts.ctsSlots]
  refine ensures_acquire_bind now slots_in ⟨sound, now.but⟩ fun _ mr ledger'' granted => ?_
  refine ensures_assign ⟨⟨?_, same⟩, ?_⟩
  · exact
      { sound with
        ctsRegistered := by
          rintro _ ⟨⟩
          exact ⟨slots, rfl, granted.needs⟩ }
  · have absent : ({ resources with ctsSlots := some slots } : ChannelResources).ctsRegistered =
        none := starts.ctsRegistered
    have after := granted.holds
    rwa [← Multiset.cons_add, ← custody_ctsRegistered mr absent] at after

theorem extends_allocateRdmaFifo {placement : RdmaMemoryPlacement} {calls : FifoCalls}
    (loses : placement = .hostPin → ¬calls.mapped.Complete → lossy .mapped)
    (qp : Option RdmaQp) :
    Extends lossy (allocateRdmaFifo endpoint placement calls) custody endpoint.custody
      (fun resources => NoFifo endpoint resources ∧ resources.qp = qp)
      (fun resources => NoCts endpoint resources ∧ resources.qp = qp) (Sound endpoint) := by
  rintro resources ledger held ⟨starts, same⟩ holds closed members
  have pd_in : endpoint.pd ∈ held := members _ (by simp [RdmaEndpoint.custody])
  unfold allocateRdmaFifo
  cases placement with
  | gpuDirect =>
      refine ensures_acquire_bind holds (by simp) ⟨starts.sound, holds.but⟩
        fun _ memory ledger' issued => ?_
      refine ensures_assign_bind ?_
      have now := issued.holds
      rw [← Multiset.cons_add, ← custody_deviceFifo memory starts.deviceFifo] at now
      have sound : Sound endpoint { resources with deviceFifo := some memory } :=
        { starts.sound with
          fifoMemory := by simp [starts.fifoMemory]
          deviceFifo := by
            rintro _ ⟨⟩
            exact issued.needs }
      have closed' := closed.add sound.over members
      refine (acquires_registerDevice lossy memory calls).bind now closed'
        (by simp [pd_in, custody_deviceFifo memory starts.deviceFifo]) ?_ ?_
      · exact fun ledger'' after => ⟨sound, after⟩
      intro mr ledger'' needs granted
      refine ensures_assign ⟨⟨⟨?_, starts.ctsSlots, starts.ctsRegistered⟩, same⟩, ?_⟩
      · exact
          { sound with
            fifoMemory := by
              rintro _ ⟨⟩
              exact ⟨memory, rfl, needs⟩ }
      · have absent : ({ resources with deviceFifo := some memory } : ChannelResources).fifoMemory =
            none := starts.fifoMemory
        rw [custody_fifoMemory mr absent]
        simpa using granted
  | hostPin =>
      refine (acquires_newMappedBuffer lossy (loses rfl)).bind holds
        (closed.add starts.sound.over members) (by simp) ?_ ?_
      · exact fun ledger' after => ⟨starts.sound, after⟩
      intro memory ledger' free now
      refine ensures_assign_bind ?_
      replace now : Holds ledger' (memory ::ₘ ((resources.custody : Multiset Object) + held)) := by
        simpa using now
      rw [← Multiset.cons_add, ← custody_fifo memory starts.fifo] at now
      have sound : Sound endpoint { resources with fifo := some memory } :=
        { starts.sound with
          registered := by simp [starts.registered]
          fifo := by
            rintro _ ⟨⟩
            exact free }
      refine ensures_acquire_bind now (by simp [pd_in, custody_fifo memory starts.fifo])
        ⟨sound, now.but⟩ fun _ mr ledger'' granted => ?_
      refine ensures_assign ⟨⟨⟨?_, starts.ctsSlots, starts.ctsRegistered⟩, same⟩, ?_⟩
      · exact
          { sound with
            registered := by
              rintro _ ⟨⟩
              exact ⟨memory, rfl, granted.needs⟩ }
      · have absent : ({ resources with fifo := some memory } : ChannelResources).registered =
            none := starts.registered
        rw [custody_registered mr absent, Multiset.cons_add]
        exact granted.holds

/-- Resources with a queue pair. -/
def ChannelResources.Ready (endpoint : RdmaEndpoint) (resources : ChannelResources) : Prop :=
  resources.Sound endpoint ∧ ∃ qp, resources.qp = some qp

theorem extends_buildChannel {calls : SetupCalls} {link : LinkCalls}
    (loses : calls.placement = .hostPin → ¬link.fifo.mapped.Complete → lossy .mapped) :
    Extends lossy (buildChannel endpoint calls link) custody endpoint.custody Made
      (ChannelResources.Ready endpoint) (Sound endpoint) := by
  rintro _ ledger held ⟨control, payloadBytes, free, free', rfl⟩ holds closed members
  have made : Sound endpoint (making control payloadBytes) := by
    constructor <;> simp [making, null, free, free']
  unfold buildChannel
  refine (acquires_createInit lossy link.qp).bind holds (closed.add made.over members)
    (fun handle member => Multiset.mem_add.mpr (.inr (members handle member)))
    (fun ledger' after => ⟨made, after⟩) fun qp ledger' sound now => ?_
  refine ensures_assign_bind ?_
  rw [← add_assoc, ← custody_qp rfl] at now
  have starts : NoFifo endpoint { making control payloadBytes with qp := some qp } :=
    { sound := { made with qp := by rintro _ ⟨⟩; exact sound }
      ctsSlots := rfl, ctsRegistered := rfl, fifo := rfl, deviceFifo := rfl, registered := rfl
      fifoMemory := rfl }
  refine (extends_allocateRdmaFifo lossy loses (some qp) _ ledger' held ⟨starts, rfl⟩ now closed
    members).bind ?_
  rintro ⟨⟩ ⟨resources, ledger''⟩ ⟨⟨noCts, same⟩, after⟩
  split
  · refine (extends_registerRdmaCtsBuffer lossy link.cts (some qp) resources ledger'' held
      ⟨noCts, same⟩ after closed members).imp ?_ fun _ failed => failed
    rintro ⟨⟩ registered ⟨⟨sound, still⟩, owned⟩
    exact ⟨⟨sound, qp, still⟩, owned⟩
  · exact ensures_pure ⟨⟨noCts.sound, qp, same⟩, after⟩

end Objects
end Communicator
end NanoNccl
