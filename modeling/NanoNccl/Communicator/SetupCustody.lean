import Mathlib.Data.List.Flatten
import NanoNccl.Bootstrap.RdmaSetup
import NanoNccl.Communicator.Acquisition

/-!
# The RDMA setup gives back what it acquires

While the setup runs, the members of the communicator can be destroyed in front of everything else
at any moment. So it does not matter which call fails, and in the end `~Impl` finds the same.
-/

namespace NanoNccl
namespace Communicator
namespace Objects

open Custody Throwing Rdma

variable {σ α : Type} {lossy : Kind → Prop} {endpoint : RdmaEndpoint}

theorem ensures_check_bind {outcome : Except String Unit} {vars : σ} {ledger : Ledger Kind}
    {next : Unit → Procedure σ Kind α} {returns : α → σ × Ledger Kind → Prop}
    {throws : σ × Ledger Kind → Prop}
    (succeeds : Ensures (next ()) (vars, ledger) returns throws) (fails : throws (vars, ledger)) :
    Ensures (check outcome >>= next) (vars, ledger) returns throws := by
  cases outcome with
  | ok value => exact succeeds
  | error message => exact fails

/-! ### Members that can be destroyed -/

/-- A proxy that is not running can be destroyed in front of its endpoint. -/
structure Proxy.Sound (endpoint : RdmaEndpoint) (proxy : Proxy) : Prop where
  qp : proxy.qp.Sound endpoint
  scratchMr : ∀ mr ∈ proxy.scratchMr, ∃ scratch ∈ proxy.scratch,
    mr.needs = [endpoint.pd.id, scratch.id]
  scratch : ∀ array ∈ proxy.scratch, array.needs = []

/-- The thread of a proxy works on its proxy and on this memory. -/
def Proxy.Threaded (memory : List Object) (proxy : Proxy) : Prop :=
  ∀ thread ∈ proxy.thread, thread.needs ⊆ (proxy.objects ++ memory).map Handle.id

theorem Proxy.Sound.over_objects {proxy : Proxy} (sound : proxy.Sound endpoint) :
    Over endpoint.custody proxy.objects := by
  refine (Over.append ?_ (over_of_free ?_)).append sound.qp.over
  · refine ChannelResources.over_registration sound.scratchMr (fun handle member => ?_)
      fun handle member => ?_ <;> simp only [List.mem_append] <;> tauto
  · exact fun array member => sound.scratch array (by simpa using member)

theorem Proxy.Threaded.over {proxy : Proxy} {memory : List Object}
    (threaded : proxy.Threaded memory) (objects : Over memory proxy.objects) :
    Over memory proxy.custody := by
  refine Over.append (over_of_needs fun thread member => ?_) objects
  exact threaded thread (by simpa using member)

namespace RdmaTransport

variable {transport other : RdmaTransport}

/-- The members of the communicator can be destroyed. -/
structure Sound (endpoint : RdmaEndpoint) (transport : RdmaTransport) : Prop where
  present : transport.endpoint = some endpoint
  closes : endpoint.Sound
  abort : ∀ memory ∈ transport.abort, memory.needs = []
  channels : ∀ resources ∈ transport.channels, resources.Sound endpoint
  proxies : ∀ proxy ∈ transport.proxies, proxy.Sound endpoint
  threaded : ∀ proxy ∈ transport.proxies, proxy.Threaded transport.base
  progress : ∀ thread ∈ transport.progress,
    thread.needs ⊆ (transport.proxies.flatMap Proxy.objects ++ transport.base).map Handle.id

namespace Sound

theorem endpoint_subset (sound : transport.Sound endpoint) :
    endpoint.custody ⊆ transport.base := by
  simp [base, sound.present]

theorem endpoint_members (sound : transport.Sound endpoint) (held : Multiset Object) :
    ∀ handle ∈ endpoint.custody, handle ∈ (transport.custody : Multiset Object) + held :=
  fun _ member => Multiset.mem_add.mpr
    (.inl (List.mem_append_right _ (sound.endpoint_subset member)))

theorem over_base (sound : transport.Sound endpoint) : Over [] transport.base := by
  have channels : Over endpoint.custody
      (transport.channels.flatMap ChannelResources.custody) := by
    rw [List.flatMap_def]
    refine over_flatten fun block member => ?_
    obtain ⟨resources, inside, rfl⟩ := List.mem_map.mp member
    exact (sound.channels resources inside).over
  rw [base, sound.present]
  refine (Over.append (over_of_free fun memory member => ?_) ?_).append (sound.closes.over [])
  · exact sound.abort memory (by simpa using member)
  · simpa using channels

theorem over_proxy (sound : transport.Sound endpoint) {proxy : Proxy}
    (member : proxy ∈ transport.proxies) : Over transport.base proxy.custody :=
  (sound.threaded proxy member).over
    ((sound.proxies proxy member).over_objects.mono sound.endpoint_subset)

theorem over_custody (sound : transport.Sound endpoint) : Over [] transport.custody := by
  refine (Over.append (over_of_needs fun thread member => ?_) ?_).append sound.over_base
  · refine List.Subset.trans (sound.progress thread (by simpa using member)) ?_
    refine List.map_subset _ fun handle inside => ?_
    simp only [List.append_nil, List.mem_append, List.mem_flatMap] at inside ⊢
    refine inside.imp (fun ⟨proxy, among, own⟩ => ⟨proxy, among, ?_⟩) id
    exact List.mem_append_right _ own
  · rw [List.flatMap_def, List.append_nil]
    refine over_flatten fun block member => ?_
    obtain ⟨proxy, inside, rfl⟩ := List.mem_map.mp member
    exact sound.over_proxy inside

/-- Threads that are joined leave members that can be destroyed. -/
theorem join (sound : transport.Sound endpoint) : transport.join.Sound endpoint where
  present := sound.present
  closes := sound.closes
  abort := sound.abort
  channels := sound.channels
  proxies := by
    intro proxy member
    obtain ⟨running, inside, rfl⟩ := List.mem_map.mp member
    have before := sound.proxies running inside
    exact ⟨before.qp, before.scratchMr, before.scratch⟩
  threaded := by
    intro proxy member
    obtain ⟨running, inside, rfl⟩ := List.mem_map.mp member
    rintro _ ⟨⟩
  progress := by rintro _ ⟨⟩

theorem join_custody (transport : RdmaTransport) :
    transport.join.custody = transport.proxies.flatMap Proxy.objects ++ transport.base := by
  have stopped : (transport.proxies.map Proxy.join).flatMap Proxy.custody =
      transport.proxies.flatMap Proxy.objects := List.flatMap_map _ _ _
  simp only [custody, RdmaTransport.join, stopped, Option.toList_none, List.nil_append, base]

theorem over_destroyed (sound : transport.Sound endpoint) : Over [] transport.destroyed := by
  refine Over.append (over_of_needs fun thread member => ?_) sound.join.over_custody
  rw [join_custody, List.append_nil]
  rcases List.mem_append.mp member with shared | own
  · exact sound.progress thread (by simpa using shared)
  · obtain ⟨proxy, inside, among⟩ := List.mem_flatMap.mp own
    refine List.Subset.trans (sound.threaded proxy inside thread (by simpa using among)) ?_
    refine List.map_subset _ fun handle needed => ?_
    rw [List.mem_append] at needed ⊢
    exact needed.imp (fun objects => List.mem_flatMap.mpr ⟨proxy, inside, objects⟩) id

end Sound

theorem destroyed_perm (transport : RdmaTransport) :
    transport.destroyed.Perm transport.custody := by
  have proxies := List.flatMap_append_perm transport.proxies (fun proxy => proxy.thread.toList)
    Proxy.objects
  rw [destroyed, Sound.join_custody, threads, custody, List.append_assoc, List.append_assoc]
  refine List.Perm.append_left _ ?_
  rw [← List.append_assoc]
  exact proxies.append_right _

/-- The same members, with the elements of each vector in any order. -/
structure Rearranged (transport other : RdmaTransport) : Prop where
  endpoint : other.endpoint = transport.endpoint
  channels : other.channels.Perm transport.channels
  abort : other.abort = transport.abort
  proxies : other.proxies.Perm transport.proxies
  progress : other.progress = transport.progress

namespace Rearranged

theorem base (same : transport.Rearranged other) : other.base.Perm transport.base := by
  rw [RdmaTransport.base, RdmaTransport.base, same.endpoint, same.abort]
  exact ((same.channels.flatMap_right _).append_left _).append_right _

theorem custody (same : transport.Rearranged other) : other.custody.Perm transport.custody := by
  rw [RdmaTransport.custody, RdmaTransport.custody, same.progress]
  exact ((same.proxies.flatMap_right _).append_left _).append same.base

theorem sound (same : transport.Rearranged other) (sound : transport.Sound endpoint) :
    other.Sound endpoint where
  present := same.endpoint.trans sound.present
  closes := sound.closes
  abort := same.abort ▸ sound.abort
  channels := fun resources member => sound.channels resources (same.channels.mem_iff.mp member)
  proxies := fun proxy member => sound.proxies proxy (same.proxies.mem_iff.mp member)
  threaded := by
    intro proxy member thread running
    refine List.Subset.trans
      (sound.threaded proxy (same.proxies.mem_iff.mp member) thread running) ?_
    exact List.map_subset _ (same.base.symm.append_left _).subset
  progress := by
    intro thread running
    refine List.Subset.trans (sound.progress thread (same.progress ▸ running)) ?_
    exact List.map_subset _
      ((same.proxies.symm.flatMap_right _).append same.base.symm).subset

end Rearranged

/-- What the members own, as a sum. -/
theorem coe_custody (transport : RdmaTransport) :
    (transport.custody : Multiset Object) =
      transport.progress.toList + (transport.proxies.flatMap Proxy.custody : List Object) +
        transport.abort.toList +
          (transport.channels.flatMap ChannelResources.custody : List Object) +
            (transport.endpoint.elim [] RdmaEndpoint.custody : List Object) := by
  simp only [custody, base, ← Multiset.coe_add, add_assoc]

theorem custody_channel (resources : ChannelResources) :
    (({ transport with channels := resources :: transport.channels } : RdmaTransport).custody :
      Multiset Object) = (resources.custody : Multiset Object) + transport.custody := by
  simp only [coe_custody, List.flatMap_cons, ← Multiset.coe_add]
  abel

theorem custody_proxy (proxy : Proxy) :
    (({ transport with proxies := proxy :: transport.proxies } : RdmaTransport).custody :
      Multiset Object) = (proxy.custody : Multiset Object) + transport.custody := by
  simp only [coe_custody, List.flatMap_cons, ← Multiset.coe_add]
  abel

/-- No proxy has been made yet. -/
structure Building (endpoint : RdmaEndpoint) (transport : RdmaTransport) : Prop extends
    Sound endpoint transport where
  noProxies : transport.proxies = []
  noProgress : transport.progress = none

theorem Building.channel (building : transport.Building endpoint) {resources : ChannelResources}
    (sound : resources.Sound endpoint) :
    Building endpoint { transport with channels := resources :: transport.channels } where
  present := building.present
  closes := building.closes
  abort := building.abort
  channels := List.forall_mem_cons.mpr ⟨sound, building.channels⟩
  proxies := building.proxies
  threaded := by simp [building.noProxies]
  progress := by simp [building.noProgress]
  noProxies := building.noProxies
  noProgress := building.noProgress

end RdmaTransport

open RdmaTransport

/-! ### The steps of the setup -/

theorem extends_buildChannels {calls : SetupCalls} (links : List LinkCalls) (count : ℕ)
    (loses : ∀ link ∈ links,
      calls.placement = .hostPin → ¬link.fifo.mapped.Complete → lossy .mapped) :
    Extends lossy (buildChannels endpoint calls links) RdmaTransport.custody []
      (fun transport => transport.Building endpoint ∧
        (∀ resources ∈ transport.channels, resources.Ready endpoint) ∧
          transport.channels.length = count)
      (fun transport => transport.Building endpoint ∧
        (∀ resources ∈ transport.channels, resources.Ready endpoint) ∧
          transport.channels.length = count + links.length)
      (Sound endpoint) := by
  induction links generalizing count with
  | nil => exact extends_pure fun _ starts => starts
  | cons link rest ih =>
      obtain ⟨loses_here, loses_later⟩ := List.forall_mem_cons.mp loses
      rintro transport ledger held ⟨building, ready, counted⟩ holds closed -
      have closed' := closed.add building.over_custody (by simp)
      unfold buildChannels
      refine (acquires_makeRdmaResources lossy link.control link.payloadBytes).bind holds closed'
        (by simp) (fun ledger' after => ⟨building.toSound, after⟩) fun resources ledger' made now
          => ?_
      refine ensures_assign_bind ?_
      refine (extends_buildChannel lossy loses_here).zoom_bind made now closed'
        (building.endpoint_members held) ?_ ?_
      · intro broken ledger'' sound after
        refine ⟨(building.channel sound).toSound, HoldsBut.congr after ?_⟩
        exact ((congrArg (· + held) (custody_channel broken)).trans (add_assoc _ _ _)).symm
      · intro built ledger'' known after
        have owned : Holds ledger'' ((({ transport with channels := built :: transport.channels } :
            RdmaTransport).custody : Multiset Object) + held) := by
          rw [custody_channel, add_assoc]
          exact after
        have later := ih (count + 1) loses_later _ ledger'' held ⟨building.channel known.1,
          List.forall_mem_cons.mpr ⟨known, ready⟩, by simp [counted]⟩ owned closed (by simp)
        refine later.imp ?_ fun _ failed => failed
        rintro ⟨⟩ after' ⟨⟨building', ready', counted'⟩, owned'⟩
        refine ⟨⟨building', ready', ?_⟩, owned'⟩
        rw [counted', List.length_cons]
        omega

theorem takeQp_spec {index : ℕ} {channels : List ChannelResources} {resources : ChannelResources}
    {qp : RdmaQp} (present : channels[index]? = some resources) (has : resources.qp = some qp) :
    takeQp index channels = some (qp, channels.set index { resources with qp := none }) := by
  induction channels generalizing index with
  | nil => simp at present
  | cons first rest ih =>
      cases index with
      | zero =>
          obtain rfl : first = resources := by simpa using present
          simp [takeQp, has]
      | succ index =>
          have later := ih (by simpa using present)
          simp [takeQp, later]

theorem custody_set {index : ℕ} {channels : List ChannelResources} {resources : ChannelResources}
    {qp : RdmaQp} (present : channels[index]? = some resources) (has : resources.qp = some qp) :
    ((channels.flatMap ChannelResources.custody : List Object) : Multiset Object) =
      (qp.custody : Multiset Object) +
        ((channels.set index { resources with qp := none }).flatMap ChannelResources.custody :
          List Object) := by
  induction channels generalizing index with
  | nil => simp at present
  | cons first rest ih =>
      cases index with
      | zero =>
          obtain rfl : first = resources := by simpa using present
          have whole : ({ ({ first with qp := none } : ChannelResources) with qp := some qp } :
              ChannelResources) = first := by rw [← has]
          have taken := ChannelResources.custody_qp
            (rfl : ({ first with qp := none } : ChannelResources).qp = none) qp
          rw [whole] at taken
          simp only [List.set_cons_zero, List.flatMap_cons, ← Multiset.coe_add, taken, add_assoc]
      | succ index =>
          have later := ih (by simpa using present)
          simp only [List.set_cons_succ, List.flatMap_cons, ← Multiset.coe_add, later]
          exact add_left_comm _ _ _

namespace RdmaTransport

variable {transport : RdmaTransport}

/-- These connections still wait for their proxies. -/
structure Connecting (endpoint : RdmaEndpoint) (pending : List PendingRdma)
    (transport : RdmaTransport) : Prop extends Sound endpoint transport where
  noProgress : transport.progress = none
  idle : ∀ proxy ∈ transport.proxies, proxy.thread = none
  distinct : (pending.map PendingRdma.index).Nodup
  places : ∀ item ∈ pending, ∃ resources qp,
    transport.channels[item.index]? = some resources ∧ resources.qp = some qp

variable {item : PendingRdma} {pending : List PendingRdma} {resources : ChannelResources}

/-- The members without the queue pair that a proxy gets. -/
def without (transport : RdmaTransport) (item : PendingRdma) (resources : ChannelResources) :
    RdmaTransport :=
  { transport with channels := transport.channels.set item.index { resources with qp := none } }

theorem Connecting.take (connecting : transport.Connecting endpoint (item :: pending))
    (present : transport.channels[item.index]? = some resources) :
    Connecting endpoint pending (transport.without item resources) where
  present := connecting.present
  closes := connecting.closes
  abort := connecting.abort
  channels := by
    intro other member
    rcases List.mem_or_eq_of_mem_set member with before | rfl
    · exact connecting.channels other before
    · exact (connecting.channels resources (List.mem_of_getElem? present)).withoutQp
  proxies := connecting.proxies
  threaded := by
    intro proxy member thread running
    rw [connecting.idle proxy member] at running
    cases running
  progress := by
    intro thread running
    rw [without, connecting.noProgress] at running
    cases running
  noProgress := connecting.noProgress
  idle := connecting.idle
  distinct := (List.nodup_cons.mp connecting.distinct).2
  places := by
    intro other member
    obtain ⟨kept, qp, place, has⟩ := connecting.places other (List.mem_cons_of_mem _ member)
    refine ⟨kept, qp, ?_, has⟩
    have apart : item.index ≠ other.index := fun same =>
      (List.nodup_cons.mp connecting.distinct).1 (same ▸ List.mem_map_of_mem member)
    rw [without, List.getElem?_set_ne apart]
    exact place

theorem Connecting.proxy (connecting : transport.Connecting endpoint pending) {proxy : Proxy}
    (sound : proxy.Sound endpoint) (idle : proxy.thread = none) :
    Connecting endpoint pending { transport with proxies := proxy :: transport.proxies } where
  present := connecting.present
  closes := connecting.closes
  abort := connecting.abort
  channels := connecting.channels
  proxies := List.forall_mem_cons.mpr ⟨sound, connecting.proxies⟩
  threaded := List.forall_mem_cons.mpr
    ⟨by simp [Proxy.Threaded, idle], connecting.threaded⟩
  progress := by simp [connecting.noProgress]
  noProgress := connecting.noProgress
  idle := List.forall_mem_cons.mpr ⟨idle, connecting.idle⟩
  distinct := connecting.distinct
  places := connecting.places

theorem custody_without {qp : RdmaQp}
    (present : transport.channels[item.index]? = some resources) (has : resources.qp = some qp) :
    (transport.custody : Multiset Object) =
      (qp.custody : Multiset Object) + (transport.without item resources).custody := by
  simp only [coe_custody, without, custody_set present has]
  abel

end RdmaTransport

/-- A proxy owns its queue pair from the first line of its constructor on. -/
theorem ensures_makeProxy (lossy : Kind → Prop) {transport : RdmaTransport} {ledger : Ledger Kind}
    {held : Multiset Object} {writeCts : Bool} {item : PendingRdma} {qp : RdmaQp}
    (sound : qp.Sound endpoint)
    (holds : Holds ledger ((qp.custody : Multiset Object) + held)) (closed : Closed held)
    (members : ∀ handle ∈ endpoint.custody, handle ∈ held) :
    Ensures (makeProxy endpoint writeCts item qp) (transport, ledger)
      (fun _ after => ∃ proxy : Proxy, proxy.Sound endpoint ∧ proxy.thread = none ∧
        after.1 = { transport with proxies := proxy :: transport.proxies } ∧
          Holds after.2 ((proxy.custody : Multiset Object) + held))
      (fun after => after.1 = transport ∧ HoldsBut lossy after.2 held) := by
  have pd_in : endpoint.pd ∈ held := members _ (by simp [RdmaEndpoint.custody])
  have fresh : Proxy.Sound endpoint ⟨item.isSend, qp, none, none, none⟩ :=
    ⟨sound, by simp, by simp⟩
  have threadless : ∀ proxy : Proxy, proxy.thread = none → proxy.custody = proxy.objects :=
    fun proxy idle => by simp [Proxy.custody, idle]
  have shut : ∀ (proxy : Proxy) ledger', proxy.Sound endpoint → proxy.thread = none →
      Holds ledger' ((proxy.custody : Multiset Object) + held) →
        HoldsBut lossy (ledger'.releaseAll proxy.custody) held := by
    intro proxy ledger' known idle now
    refine (now.releaseAll closed ?_ members).but
    exact threadless proxy idle ▸ known.over_objects
  refine ensures_inScope ?_
  refine ensures_check_bind ?_ ⟨rfl, shut _ ledger fresh rfl holds⟩
  split
  · refine ensures_acquire_bind holds (by simp) ⟨rfl, shut _ ledger fresh rfl holds⟩
      fun _ scratch ledger' issued => ?_
    refine ensures_assign_bind ?_
    have half : Proxy.Sound endpoint ⟨item.isSend, qp, some scratch, none, none⟩ :=
      ⟨sound, by simp, by rintro _ ⟨⟩; exact issued.needs⟩
    have now : Holds ledger' ((Proxy.custody ⟨item.isSend, qp, some scratch, none, none⟩ :
        Multiset Object) + held) := by
      simpa [Proxy.custody, Proxy.objects] using issued.holds
    refine ensures_acquire_bind now (by simp [pd_in, Proxy.custody, Proxy.objects])
      ⟨rfl, shut _ ledger' half rfl now⟩ fun _ mr ledger'' granted => ?_
    refine ensures_assign_bind (ensures_assign ?_)
    refine ⟨⟨item.isSend, qp, some scratch, some mr, none⟩, ?_, rfl, rfl, ?_⟩
    · exact ⟨sound, by rintro _ ⟨⟩; exact ⟨scratch, rfl, granted.needs⟩, half.scratch⟩
    · simpa [Proxy.custody, Proxy.objects, Ledger.releaseAll] using granted.holds
  · exact ensures_assign ⟨_, fresh, rfl, rfl, holds⟩

theorem extends_connectPending {writeCts : Bool} (pending : List PendingRdma) :
    Extends lossy (connectPending endpoint writeCts pending) RdmaTransport.custody []
      (Connecting endpoint pending) (Connecting endpoint []) (Sound endpoint) := by
  induction pending with
  | nil => exact extends_pure fun _ starts => starts
  | cons item rest ih =>
      intro transport ledger held connecting holds closed _
      obtain ⟨resources, qp, present, has⟩ := connecting.places item List.mem_cons_self
      have sound : qp.Sound endpoint :=
        (connecting.channels resources (List.mem_of_getElem? present)).qp qp has
      have taken := connecting.take present
      have moved := custody_without present has
      have below := closed.add taken.over_custody (by simp)
      unfold connectPending
      refine ensures_check_bind ?_ ⟨connecting.toSound, holds.but⟩
      refine ensures_get_bind ?_
      rw [takeQp_spec present has]
      refine ensures_useAll_bind holds ?_ ?_
      · intro handle member
        rw [moved, add_assoc]
        exact Multiset.mem_add.mpr (.inl member)
      refine ensures_check_bind ?_ ⟨connecting.toSound, holds.but⟩
      refine ensures_assign_bind ?_
      rw [moved, add_assoc] at holds
      refine Ensures.bind ((ensures_makeProxy lossy sound holds below
        (taken.endpoint_members held)).imp (fun _ _ returned => returned) ?_) ?_
      · rintro ⟨_, ledger'⟩ ⟨rfl, after⟩
        exact ⟨taken.toSound, after⟩
      · rintro ⟨⟩ ⟨_, ledger'⟩ ⟨proxy, known, idle, rfl, after⟩
        refine ih _ ledger' held (taken.proxy known idle) ?_ closed (by simp)
        have owned : (({ transport.without item resources with
            proxies := proxy :: transport.proxies } : RdmaTransport).custody : Multiset Object) =
              (proxy.custody : Multiset Object) + (transport.without item resources).custody :=
          custody_proxy proxy
        exact (owned ▸ add_assoc (proxy.custody : Multiset Object) _ held) ▸ after

/-! ### Proxies that start -/

/-- A proxy between two steps of the start. -/
def Proxy.Kept (endpoint : RdmaEndpoint) (memory : List Object) (proxy : Proxy) : Prop :=
  proxy.Sound endpoint ∧ proxy.Threaded memory

theorem keeps_startProxy {memory : List Object} {starts : Proxy → Except String Unit} :
    Keeps lossy (startProxy memory starts) Proxy.custody memory (Proxy.Kept endpoint memory) := by
  rintro proxy ledger held ⟨sound, threaded⟩ holds closed members
  unfold startProxy
  refine ensures_get_bind ?_
  cases running : proxy.thread with
  | some thread =>
      simp only [Option.isSome_some, if_true]
      exact ensures_throw_bind ⟨⟨sound, threaded⟩, holds.but⟩
  | none =>
      simp only [Option.isSome_none, Bool.false_eq_true, if_false]
      refine ensures_check_bind ?_ ⟨⟨sound, threaded⟩, holds.but⟩
      have objects : proxy.custody = proxy.objects := by simp [Proxy.custody, running]
      have used : ∀ handle ∈ proxy.objects ++ memory,
          handle ∈ (proxy.custody : Multiset Object) + held := by
        intro handle member
        rw [objects, Multiset.mem_add]
        exact (List.mem_append.mp member).imp id (members handle)
      refine ensures_acquire_bind holds used ⟨⟨sound, threaded⟩, holds.but⟩
        fun _ thread ledger' issued => ensures_assign ⟨⟨⟨?_, ?_, ?_⟩, ?_⟩, ?_⟩
      · exact sound.qp
      · exact sound.scratchMr
      · exact sound.scratch
      · rintro _ ⟨⟩
        exact issued.needs ▸ List.Subset.refl _
      · have now := issued.holds
        rw [objects, ← Multiset.cons_add] at now
        exact now

section Sides

variable {memory : List Object} {starts : Proxy → Except String Unit}

/-- Objects of proxies can go in any order, in front of what they work on. -/
theorem Proxy.Kept.over (endpoint_in : endpoint.custody ⊆ memory) (proxy : Proxy)
    (kept : proxy.Kept endpoint memory) : Over memory proxy.custody :=
  kept.2.over (kept.1.over_objects.mono endpoint_in)

theorem keeps_startSide (isSend : Bool) (endpoint_in : endpoint.custody ⊆ memory) :
    Keeps lossy (startSide isSend memory starts)
      (fun proxies => proxies.flatMap Proxy.custody) memory
      (fun proxies => ∀ proxy ∈ proxies, proxy.Kept endpoint memory) := by
  refine keeps_forEach (Proxy.Kept.over endpoint_in) ?_
  intro proxy ledger held kept holds closed members
  refine ensures_get_bind ?_
  split
  · exact keeps_startProxy proxy ledger held kept holds closed members
  · exact ensures_pure ⟨kept, holds⟩

theorem keeps_prepareSide (isSend : Bool) (endpoint_in : endpoint.custody ⊆ memory) :
    Keeps lossy (prepareSide isSend starts)
      (fun proxies => proxies.flatMap Proxy.custody) memory
      (fun proxies => ∀ proxy ∈ proxies, proxy.Kept endpoint memory) := by
  refine keeps_forEach (Proxy.Kept.over endpoint_in) ?_
  intro proxy ledger held kept holds closed members
  refine ensures_get_bind ?_
  split
  · unfold check
    split
    · exact ensures_pure ⟨kept, holds⟩
    · exact ensures_throw ⟨kept, holds.but⟩
  · exact ensures_pure ⟨kept, holds⟩

/-- The thread of `rdma_progress_` does not run. -/
structure RdmaTransport.Paused (endpoint : RdmaEndpoint) (memory : List Object)
    (transport : RdmaTransport) : Prop extends Sound endpoint transport where
  noProgress : transport.progress = none
  behind : transport.base = memory

theorem keeps_onProxies {body : Procedure (List Proxy) Kind Unit}
    (keeps : Keeps lossy body (fun proxies => proxies.flatMap Proxy.custody) memory
      (fun proxies => ∀ proxy ∈ proxies, proxy.Kept endpoint memory)) :
    Keeps lossy (onProxies body) RdmaTransport.custody [] (Paused endpoint memory) := by
  rintro transport ledger held ⟨sound, noProgress, rfl⟩ holds closed -
  have split : ∀ proxies : List Proxy,
      ((({ transport with proxies := proxies } : RdmaTransport).custody : List Object) :
        Multiset Object) + held =
          (proxies.flatMap Proxy.custody : List Object) +
            ((transport.base : Multiset Object) + held) := by
    intro proxies
    simp only [custody, noProgress, Option.toList_none, List.nil_append, ← Multiset.coe_add,
      add_assoc, base]
  have kept : ∀ proxies : List Proxy, (∀ proxy ∈ proxies, proxy.Kept endpoint transport.base) →
      Paused endpoint transport.base { transport with proxies := proxies } := fun proxies known =>
    { sound with
      proxies := fun proxy member => (known proxy member).1
      threaded := fun proxy member => (known proxy member).2
      progress := by simp [noProgress]
      noProgress := noProgress
      behind := rfl }
  refine ensures_zoom ((keeps transport.proxies ledger _ ?_ (split _ ▸ holds)
    (closed.add sound.over_base (by simp)) ?_).imp ?_ ?_)
  · exact fun proxy member => ⟨sound.proxies proxy member, sound.threaded proxy member⟩
  · exact fun handle member => Multiset.mem_add.mpr (.inl member)
  · rintro ⟨⟩ ⟨proxies, ledger'⟩ ⟨known, now⟩
    exact ⟨kept proxies known, split proxies ▸ now⟩
  · rintro ⟨proxies, ledger'⟩ ⟨known, now⟩
    exact ⟨kept proxies known, HoldsBut.congr now (split proxies).symm⟩

end Sides

theorem extends_startTransport (lossy : Kind → Prop) (calls : SetupCalls) :
    Extends lossy (startTransport calls) RdmaTransport.custody []
      (fun transport => transport.Sound endpoint ∧ transport.progress = none) (Sound endpoint)
      (Sound endpoint) := by
  rintro transport ledger held ⟨sound, noProgress⟩ holds closed -
  have starts : Paused endpoint transport.base transport := ⟨sound, noProgress, rfl⟩
  have endpoint_in := sound.endpoint_subset
  unfold startTransport
  split
  · refine (keeps_onProxies (keeps_prepareSide false endpoint_in)).call_bind starts holds closed
      (by simp) (fun _ _ failed after => ⟨failed.toSound, after⟩) fun _ ledger' paused now => ?_
    refine ensures_check_bind ?_ ⟨paused.toSound, now.but⟩
    refine (keeps_onProxies (keeps_prepareSide true endpoint_in)).call_bind paused now closed
      (by simp) (fun _ _ failed after => ⟨failed.toSound, after⟩) fun last ledger'' ready after
        => ?_
    refine ensures_get_bind ?_
    split
    · have objects : last.custody = last.proxies.flatMap Proxy.custody ++ last.base := by
        simp [custody, ready.noProgress]
      have used : ∀ handle ∈ last.proxies.flatMap Proxy.objects ++ last.base,
          handle ∈ (last.custody : Multiset Object) + held := by
        intro handle member
        rw [objects]
        refine Multiset.mem_add.mpr (.inl (List.mem_append.mpr ?_))
        refine (List.mem_append.mp member).imp (fun own => ?_) id
        obtain ⟨proxy, inside, among⟩ := List.mem_flatMap.mp own
        exact List.mem_flatMap.mpr ⟨proxy, inside, List.mem_append_right _ among⟩
      refine ensures_acquire_bind after used ⟨ready.toSound, after.but⟩
        fun _ thread ledger₃ issued => ensures_assign ⟨?_, ?_⟩
      · exact
          { ready.toSound with
            progress := by
              rintro _ ⟨⟩
              exact issued.needs ▸ List.Subset.refl _ }
      · have owned := issued.holds
        rw [← Multiset.cons_add, objects] at owned
        exact owned
    · exact ensures_pure ⟨ready.toSound, after⟩
  · refine ensures_get_bind ?_
    refine (keeps_onProxies (keeps_startSide false endpoint_in)).call_bind starts holds closed
      (by simp) (fun _ _ failed after => ⟨failed.toSound, after⟩) fun _ ledger' paused now => ?_
    refine ensures_check_bind ?_ ⟨paused.toSound, now.but⟩
    have last : Extends lossy (onProxies (startSide true transport.base calls.starts))
        RdmaTransport.custody [] (Paused endpoint transport.base) (Sound endpoint)
          (Sound endpoint) :=
      (keeps_onProxies (keeps_startSide true endpoint_in)).imp (List.Subset.refl [])
        (fun _ ready => ready) (fun _ ready => ready.toSound) fun _ failed => failed.toSound
    exact last _ ledger' held paused now closed (by simp)

/-! ### The setup -/

namespace SetupCalls

variable (calls : SetupCalls)

/-- Each connection is that of local resources, and no two are those of the same ones. -/
def Paired : Prop :=
  (calls.pending.map PendingRdma.index).Nodup ∧
    ∀ item ∈ calls.pending, item.index < calls.links.length

instance : Decidable calls.Paired := inferInstanceAs (Decidable (_ ∧ _))

/-- What a setup may lose. -/
def Loses (kind : Kind) : Prop :=
  kind = .mapped ∧ calls.placement = .hostPin ∧
    ∃ link ∈ calls.links, ¬link.fifo.mapped.Complete

end SetupCalls

section Places

variable {n : ℕ} (network : Bootstrap.Network n) (rank : Fin n)

/-- The ends of RDMA edges at a rank, in the order in which the loops make their resources. -/
def localEnds : List (Bootstrap.Port n) :=
  (List.finRange n).flatMap fun edge =>
    let ends := fun source =>
      (List.range network.kChannels).map fun channel => (edge, channel, source)
    if network.edgeKinds edge = .rdma then
      (if edge = rank then ends true else []) ++
        if Bootstrap.receiver edge = rank then ends false else []
    else []

theorem mem_localEnds {port : Bootstrap.Port n} :
    port ∈ localEnds network rank ↔ Bootstrap.portOwner port = rank ∧
      network.edgeKinds port.1 = .rdma ∧ port.2.1 < network.kChannels := by
  obtain ⟨edge, channel, source⟩ := port
  simp only [localEnds, List.mem_flatMap, List.mem_finRange, true_and, Bootstrap.portOwner]
  constructor
  · rintro ⟨other, member⟩
    split at member
    · rename_i rdma
      rcases List.mem_append.mp member with sends | receives
      · split at sends
        · obtain ⟨_, inside, same⟩ := List.mem_map.mp sends
          cases same
          exact ⟨‹_›, rdma, List.mem_range.mp inside⟩
        · cases sends
      · split at receives
        · obtain ⟨_, inside, same⟩ := List.mem_map.mp receives
          cases same
          exact ⟨‹_›, rdma, List.mem_range.mp inside⟩
        · cases receives
    · cases member
  · rintro ⟨owner, rdma, inside⟩
    refine ⟨edge, ?_⟩
    cases source <;> simp_all

/-- Where the resources of an end are kept: the ones made last come first. -/
def place (port : Bootstrap.Port n) : ℕ := (localEnds network rank).reverse.idxOf port

variable {network rank}

/-- The connections the bootstrap leaves to a rank are each that of local resources, and no two are
those of the same ones. -/
theorem paired_of_collected {items : List Bootstrap.PendingRdma}
    (collected : Bootstrap.Collected network rank items) {calls : SetupCalls}
    (links : calls.links.length = (localEnds network rank).length)
    (pending : calls.pending.map PendingRdma.index =
      items.map fun item => place network rank (item.port network)) : calls.Paired := by
  have inside : ∀ item ∈ items, item.port network ∈ (localEnds network rank).reverse :=
    fun item member => List.mem_reverse.mpr
      ((mem_localEnds network rank).mpr ((collected.mem _).mp (List.mem_map_of_mem member)))
  constructor
  · rw [pending]
    refine List.Nodup.map_on (fun first member second member' same => ?_) collected.nodup.of_map
    have ports := (List.idxOf_inj (inside first member)).mp same
    exact List.inj_on_of_nodup_map collected.nodup member member' ports
  · intro item member
    have placed : item.index ∈ items.map fun item => place network rank (item.port network) :=
      pending ▸ List.mem_map_of_mem member
    obtain ⟨connection, among, same⟩ := List.mem_map.mp placed
    rw [links, ← same, ← List.length_reverse]
    exact List.idxOf_lt_length_of_mem (inside connection among)

end Places

theorem ensures_setupRdmaTransport (calls : SetupCalls) (paired : calls.Paired) :
    Ensures (setupRdmaTransport calls) (.null, .empty)
      (fun _ after => ∃ endpoint, after.1.Sound endpoint ∧ Holds after.2 after.1.custody)
      (fun after => (after.1 = .null ∨ ∃ endpoint, after.1.Sound endpoint) ∧
        HoldsBut calls.Loses after.2 after.1.custody) := by
  unfold setupRdmaTransport
  refine (acquires_createFromEnvironment _ calls.endpoint).bind holds_empty closed_zero (by simp)
    (fun ledger after => ⟨.inl rfl, by simpa [custody, base, null] using after⟩) ?_
  intro endpoint ledger closes now
  replace now : Holds ledger (endpoint.custody : Multiset Object) := by simpa using now
  refine ensures_assign_bind ?_
  have alone : Closed (endpoint.custody : Multiset Object) := by
    simpa using closed_zero.add (closes.over []) (by simp)
  have owned : ∀ abort : Option Object,
      (({ null with endpoint := some endpoint, abort := abort } : RdmaTransport).custody :
        Multiset Object) = (abort.toList : Multiset Object) + endpoint.custody := by
    intro abort
    simp [coe_custody, null]
  have building : ∀ abort : Option Object, (∀ memory ∈ abort, memory.needs = []) →
      Building endpoint { null with endpoint := some endpoint, abort := abort } := by
    intro abort free
    constructor <;> first | rfl | (constructor <;> simp_all [null])
  refine (extends_resetMapped calls.Loses calls.abort).zoom_bind rfl (by simpa [null] using now)
    alone (by simp) ?_ ?_
  · intro abort ledger' free after
    exact ⟨.inr ⟨endpoint, (building abort free).toSound⟩, after.congr (owned abort).symm⟩
  rintro _ ledger' ⟨memory, rfl, free⟩ after
  have starts := building (some memory) (by simpa using free)
  have loses : ∀ link ∈ calls.links, calls.placement = .hostPin → ¬link.fifo.mapped.Complete →
      calls.Loses .mapped := fun link member pinned incomplete =>
    ⟨rfl, pinned, link, member, incomplete⟩
  have failing : ∀ (transport : RdmaTransport) ledger, transport.Sound endpoint →
      HoldsBut calls.Loses ledger ((transport.custody : Multiset Object) + 0) →
        (transport = .null ∨ ∃ endpoint, transport.Sound endpoint) ∧
          HoldsBut calls.Loses ledger transport.custody := fun transport ledger sound after =>
    ⟨.inr ⟨endpoint, sound⟩, after.congr (add_zero _)⟩
  refine (extends_buildChannels calls.links 0 loses).call_bind ⟨starts, by simp [null], rfl⟩
    (by rw [add_zero, owned]; exact after) closed_zero (by simp) failing ?_
  rintro transport ledger'' ⟨built, ready, counted⟩ holds
  refine ensures_check_bind ?_ (failing _ _ built.toSound holds.but)
  have connecting : Connecting endpoint calls.pending transport :=
    { built.toSound with
      noProgress := built.noProgress
      idle := by simp [built.noProxies]
      distinct := paired.1
      places := by
        intro item member
        have inside : item.index < transport.channels.length := by
          simpa [counted] using paired.2 item member
        obtain ⟨-, qp, has⟩ := ready _ (List.getElem_mem inside)
        exact ⟨_, qp, List.getElem?_eq_getElem inside, has⟩ }
  refine (extends_connectPending calls.pending).call_bind connecting holds closed_zero (by simp)
    failing fun connected ledger₃ through holds => ?_
  refine (extends_startTransport calls.Loses calls _ ledger₃ 0 ⟨through.toSound, through.noProgress⟩
    holds
    closed_zero (by simp)).imp ?_ ?_
  · rintro ⟨⟩ last ⟨sound, holds⟩
    exact ⟨endpoint, sound, by simpa using holds⟩
  · exact fun last failed => failing _ _ failed.1 failed.2

/-- Whatever fails while the RDMA transport is set up, in the end everything is released, once and
before what it needs, and nothing is used that has been released or is not there: `~Impl` releases
all, and so do the destructors of the members if the setup throws. Only the memory of a
`MappedBuffer` whose constructor throws is left. Elements of vectors may go in any order. -/
theorem rdma_setup_releases (calls : SetupCalls) (paired : calls.Paired) :
    Ensures (setupRdmaTransport calls) (.null, .empty)
      (fun _ after => ∀ members, after.1.Rearranged members →
        Holds (after.2.releaseAll members.destroyed) 0)
      (fun after => ∀ members, after.1.Rearranged members →
        HoldsBut calls.Loses (after.2.releaseAll members.custody) 0) := by
  refine (ensures_setupRdmaTransport calls paired).imp ?_ ?_
  · rintro ⟨⟩ ⟨transport, ledger⟩ ⟨endpoint, sound, holds⟩ members same
    have all : (transport.custody : Multiset Object) = members.destroyed :=
      (Multiset.coe_eq_coe.mpr (members.destroyed_perm.trans same.custody)).symm
    refine Holds.releaseAll ?_ closed_zero (same.sound sound).over_destroyed (by simp)
    rw [add_zero, ← all]
    exact holds
  · rintro ⟨transport, ledger⟩ ⟨known, holds⟩ members same
    have all : (transport.custody : Multiset Object) = members.custody :=
      (Multiset.coe_eq_coe.mpr same.custody).symm
    have ordered : Over [] members.custody := by
      rcases known with rfl | ⟨endpoint, sound⟩
      · have nothing : members.custody = [] := same.custody.eq_nil
        rw [nothing]
        trivial
      · exact (same.sound sound).over_custody
    refine HoldsBut.releaseAll (holds.congr ?_) closed_zero ordered (by simp)
    rw [add_zero, all]

/-- Calls that succeed. -/
def MappedCalls.succeed : MappedCalls := ⟨true, true⟩

/-- The end of an edge with host memory. -/
def LinkCalls.pinned (mapped : MappedCalls) : LinkCalls where
  control := .succeed
  payloadBytes := .succeed
  qp := ⟨true, true, true⟩
  fifo := ⟨mapped, true, true, true, true, true, true⟩
  cts := true

/-- A rank that sends and receives in the WriteCts plane, behind a device without a link. -/
def SetupCalls.twoLinks (mapped : MappedCalls) : SetupCalls where
  placement := .hostPin
  writeCts := true
  sharedProgress := true
  endpoint := ⟨true, false, true,
    [⟨true, true, false, true, true, true⟩, ⟨true, true, true, true, true, true⟩]⟩
  abort := .succeed
  links := [.pinned .succeed, .pinned mapped]
  exchange := .ok ()
  pending := [⟨true, 1, .ok (), .ok (), .ok (), true⟩, ⟨false, 0, .ok (), .ok (), .ok (), true⟩]
  starts := fun _ => .ok ()
  ready := .ok ()
  progress := true

/-- Everything a setup acquires is released in the end, up to what it may lose. -/
def SetupCalls.Releases (calls : SetupCalls) : Prop :=
  Ensures (setupRdmaTransport calls) (.null, .empty)
    (fun _ after => ∀ members, after.1.Rearranged members →
      Holds (after.2.releaseAll members.destroyed) 0)
    (fun after => ∀ members, after.1.Rearranged members →
      HoldsBut calls.Loses (after.2.releaseAll members.custody) 0)

/-- A setup that returns, and one that throws when its second FIFO cannot be mapped. -/
theorem rdma_setup_releases_twoLinks :
    ((execute (setupRdmaTransport (.twoLinks .succeed)) (.null, .empty)).1.toOption = some () ∧
      (SetupCalls.twoLinks .succeed).Releases) ∧
    (execute (setupRdmaTransport (.twoLinks ⟨true, false⟩)) (.null, .empty)).1.toOption = none ∧
      (SetupCalls.twoLinks ⟨true, false⟩).Releases :=
  ⟨⟨by decide +kernel, rdma_setup_releases (.twoLinks .succeed) (by decide)⟩,
    by decide +kernel, rdma_setup_releases (.twoLinks ⟨true, false⟩) (by decide)⟩

end Objects
end Communicator
end NanoNccl
