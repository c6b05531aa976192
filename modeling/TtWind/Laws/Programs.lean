import TtWind.Effect.Rely
import TtWind.Laws.Footprint

/-!
# Footprints of the whole programs

`deviceFoot` bounds everything done on the device under one lock: arc.c and
sysmem.c under ArcLock, CONFIGURE_TLB under StateLock. `handleFoot` bounds the
ioctls that create and destroy a handle's mappings and windows, `resetFoot` the
two reset ioctls, `powerFoot` the power callbacks, `hardwareFoot` PrepareHardware and
ReleaseHardware.

Where an argument needs less than a footprint says, the program is bounded for any footprint that
contains the operations it performs (the scopes), and each argument supplies its own. As in
`TtWind.Laws.Footprint` these are bounds: they do not say that a program gets that far.
-/

set_option autoImplicit false

namespace TtWind

open TtWind.Effect TtWind.Effect.Prog

/-! ## The code under ArcLock -/

/-- What the code that works on the device under the lock `l` may do. -/
def deviceFoot (l : Lock) : Op → Prop
  | .acquire l' | .release l' => l' = l
  | .mmioRead _ _ | .mmioWrite _ _ _ | .bufferWrite _ _ => True
  | .store f => ArcFrame f
  | o => o.plain

/-- Plain operations are in the footprint of any lock. -/
theorem deviceFoot_of_plain {l : Lock} {o : Op} (h : o.plain) : deviceFoot l o := by
  cases o <;> first | exact h | exact (h : False).elim

/-- What the mailbox, the arm path and their ioctls may do. -/
abbrev arcFoot : Op → Prop := deviceFoot .arc

/-- A footprint with every register access and every store within the frame. -/
theorem mailScope_of {K : Op → Prop} (silent : ∀ o, o.silent → K o)
    (store : ∀ f, QuietFrame f → K (.store f))
    (mmio : ∀ p off, K (.mmioRead p off) ∧ ∀ v, K (.mmioWrite p off v)) :
    MailScope (fun _ _ => True) K where
  silent := silent
  route _ _ := store _ fun _ => rfl
  regs _ _ _ off _ := mmio _ off
  window _ _ _ off := mmio _ off
  axi _ _ _ off := mmio _ off

/-- A footprint with the silent operations, every register access and the stores under ArcLock will do. -/
theorem arcScope_of {K : Op → Prop} (silent : ∀ o, o.silent → K o)
    (store : ∀ f, ArcFrame f → K (.store f))
    (mmio : ∀ p off, K (.mmioRead p off) ∧ ∀ v, K (.mmioWrite p off v)) : ArcScope (fun _ _ => True) K where
  toMailScope := mailScope_of silent (fun f hf => store f hf.arc) mmio
  store f hf _ _ _ := store f hf
  iatu _ _ _ off := mmio _ off
  nocId _ _ _ off := (mmio _ off).1

/-- The code under ArcLock is within the device footprint, under whichever lock. -/
theorem arcScope_deviceFoot (l : Lock) : ArcScope (fun _ _ => True) (deviceFoot l) :=
  arcScope_of (fun o ho => by cases o <;> first | exact ho | exact ho.elim)
    (fun _ hf => hf) fun _ _ => ⟨trivial, fun _ => trivial⟩

theorem arcScope_arcFoot : ArcScope (fun _ _ => True) arcFoot := arcScope_deviceFoot .arc

theorem mailScope_arcFoot : MailScope (fun _ _ => True) arcFoot := arcScope_arcFoot.toMailScope

/-- What the power callbacks may do: the same, without a request. -/
def powerFoot : Op → Prop
  | .acquire l | .release l => l = .arc
  | .mmioRead _ _ | .mmioWrite _ _ _ | .bufferWrite _ _ => True
  | .store f => ArcFrame f
  | o => o.silent

/-- A power callback does nothing that code under ArcLock does not. -/
theorem arcFoot_of_powerFoot {o : Op} (h : powerFoot o) : arcFoot o := by
  cases o <;> first | exact h | exact (h : False).elim

theorem arcScope_powerFoot : ArcScope (fun _ _ => True) powerFoot :=
  arcScope_of (fun o ho => by cases o <;> first | exact ho | exact ho.elim)
    (fun _ hf => hf) fun _ _ => ⟨trivial, fun _ => trivial⟩

/-- A footprint of the mailbox that contains taking and giving up ArcLock. -/
structure ExchangeScope (K : Op → Prop) : Prop extends MailScope (fun _ _ => True) K where
  acquire : K (.acquire .arc)
  release : K (.release .arc)

/-- An exchange: ArcLock, the mailbox, and ArcLock back. -/
theorem arcMsgSendSync_within {K : Op → Prop} (h : ExchangeScope K) (msg : ArcMsg) :
    (arcMsgSendSync msg).Only K :=
  ⟨h.acquire, fun _ _ => (arcSendLocked_within h.toMailScope msg).bind fun _ =>
    ⟨h.release, fun _ _ => trivial⟩⟩

theorem arcSendChecked_within {K : Op → Prop} (h : ExchangeScope K) (header : UInt32) :
    (arcSendChecked header).Only K := by
  refine (arcMsgSendSync_within h _).bind fun r => ?_
  cases r with
  | error => trivial
  | ok => exact Within.ite (fun _ => trivial) fun _ => trivial

/-- The power-up message is an exchange, and so is the power-down. -/
theorem arcPowerUp_within {K : Op → Prop} (h : ExchangeScope K) : arcPowerUp.Only K :=
  (arcSendChecked_within h _).bind fun _ => Within.ite (fun _ => trivial) fun _ =>
    arcSendChecked_within h _

theorem arcPowerDown_within {K : Op → Prop} (h : ExchangeScope K) : arcPowerDown.Only K :=
  (arcSendChecked_within h _).bind fun _ => (arcSendChecked_within h _).bind fun _ => trivial

theorem exchangeScope_powerFoot : ExchangeScope powerFoot where
  toMailScope := arcScope_powerFoot.toMailScope
  acquire := rfl
  release := rfl

/-- The exchanges in the footprint of the power callbacks. -/
theorem arcMsgSendSync_only (msg : ArcMsg) : (arcMsgSendSync msg).Only powerFoot :=
  arcMsgSendSync_within exchangeScope_powerFoot msg

theorem arcPowerUp_only : arcPowerUp.Only powerFoot := arcPowerUp_within exchangeScope_powerFoot

theorem arcPowerDown_only : arcPowerDown.Only powerFoot := arcPowerDown_within exchangeScope_powerFoot

/-- The arm, with its pattern words in the buffer. -/
theorem sysmemArm_only : sysmemArm.Only powerFoot :=
  ⟨rfl, fun _ _ => (armLocked_within arcScope_powerFoot (fun _ _ => trivial) fun _ hf => hf).bind
    fun _ => ⟨rfl, fun _ _ => trivial⟩⟩

/-- Invalidation stores one flag. -/
theorem sysmemInvalidate_only : sysmemInvalidate.Only powerFoot :=
  ⟨rfl, fun _ _ => ⟨fun _ => rfl, fun _ _ => (within_perform _).mpr rfl⟩⟩

/-- Every power callback. -/
theorem power_only (cb : PowerCallback) : cb.code.Only powerFoot := by
  have hinit : evtDeviceSelfManagedIoInit.Only powerFoot :=
    arcPowerUp_only.bind fun _ => sysmemArm_only.bind fun _ => trivial
  cases cb with
  | init => exact hinit
  | restart => exact hinit
  | suspend => exact sysmemInvalidate_only.bind fun _ => arcPowerDown_only

/-- The power-up message is sent again, so many times. -/
theorem powerUpRetry_only (tries : Nat) : (powerUpRetry tries).Only powerFoot := by
  induction tries with
  | zero => trivial
  | succ tries ih =>
    refine arcPowerUp_only.bind fun _ => Within.ite (fun _ => trivial) fun _ => ?_
    exact Within.ite (fun _ => trivial) fun _ => ⟨trivial, fun _ _ => ih⟩

/-! ## The request's buffers -/

/-- Fields are read, and nothing else. -/
theorem inWords_only {K : Op → Prop} (hK : ∀ off len, K (.inField off len)) (k off : Nat) :
    (inWords off k).Only K := by
  induction k generalizing off with
  | zero => trivial
  | succ k ih => exact ⟨hK _ _, fun _ _ => (ih _).bind fun _ => trivial⟩

/-- Fields are stored, and nothing else. -/
theorem outWords_only {K : Op → Prop} (hK : ∀ off len v, K (.outField off len v))
    (words : List UInt32) (off : Nat) : (outWords off words).Only K := by
  induction words generalizing off with
  | nil => trivial
  | cons v vs ih => exact ⟨hK _ _ _, fun _ _ => ih _⟩

/-- The BARs are stored one by one. -/
theorem outBars_only {K : Op → Prop} (hK : ∀ off len v, K (.outField off len v))
    (c : DeviceContext) (k i : Nat) : (outBars c i k).Only K := by
  induction k generalizing i with
  | zero => trivial
  | succ k ih => exact ⟨hK _ _ _, fun _ _ => ⟨hK _ _ _, fun _ _ => ih _⟩⟩

/-- GET_DEVICE_INFO goes near no register and takes no lock. -/
theorem getDeviceInfo_only {K : Op → Prop} (hK : ∀ o, o.plain → K o) : getDeviceInfo.Only K := by
  have hout : ∀ off len v, K (.outField off len v) := fun _ _ _ => hK _ trivial
  refine ⟨hK _ trivial, fun status _ => Within.ite (fun _ => trivial) fun _ => ?_⟩
  refine ⟨hK _ trivial, fun _ _ => ⟨hK _ trivial, fun c _ => ?_⟩⟩
  refine ⟨hout _ _ _, fun _ _ => ⟨hout _ _ _, fun _ _ => ⟨hout _ _ _, fun _ _ => ⟨hout _ _ _, fun _ _ => ?_⟩⟩⟩⟩
  refine ⟨hout _ _ _, fun _ _ => ⟨hout _ _ _, fun _ _ => ⟨hout _ _ _, fun _ _ => ⟨hout _ _ _, fun _ _ => ?_⟩⟩⟩⟩
  exact ⟨hout _ _ _, fun _ _ => (outBars_only hout _ _ _).bind fun _ => trivial⟩

/-- SMC_MSG is one checked exchange. -/
theorem ioctlSmcMsg_only : ioctlSmcMsg.Only arcFoot := by
  refine ⟨trivial, fun _ _ => Within.ite (fun _ => trivial) fun _ => ?_⟩
  refine ⟨trivial, fun _ _ => Within.ite (fun _ => trivial) fun _ => ?_⟩
  refine (inWords_only (fun _ _ => trivial) _ _).bind fun words => ?_
  refine ((arcMsgSendSync_only _).mono fun _ => arcFoot_of_powerFoot).bind fun r => ?_
  cases r with
  | error => trivial
  | ok msg =>
    exact ⟨trivial, fun _ _ => (outWords_only (fun _ _ _ => trivial) _ _).bind fun _ => trivial⟩

theorem ioctlArcStatus_only : ioctlArcStatus.Only arcFoot := by
  refine ⟨trivial, fun _ _ => Within.ite (fun _ => trivial) fun _ => ⟨rfl, fun _ _ => ?_⟩⟩
  refine (arcStatusLocked_within mailScope_arcFoot).bind fun ⟨_, _, _⟩ => ⟨rfl, fun _ _ => ?_⟩
  exact (outWords_only (fun _ _ _ => trivial) _ _).bind fun _ => trivial

/-- QUERY_SYSMEM takes ArcLock for its reply. -/
theorem ioctlQuerySysmem_only {K : Op → Prop} (hK : ∀ o, o.plain → K o) (ha : K (.acquire .arc))
    (hr : K (.release .arc)) : ioctlQuerySysmem.Only K := by
  refine ⟨hK _ trivial, fun _ _ => Within.ite (fun _ => trivial) fun _ => ⟨hK _ trivial, fun _ _ => ?_⟩⟩
  refine ⟨ha, fun _ _ => ⟨hK _ trivial, fun c _ => ?_⟩⟩
  exact (outSysmem_within (fun _ _ _ => hK _ trivial) c).bind fun _ => ⟨hr, fun _ _ => trivial⟩

/-- SYSMEM_STATUS does too, and reads the iATU back. -/
theorem ioctlSysmemStatus_only : ioctlSysmemStatus.Only arcFoot := by
  refine ⟨trivial, fun _ _ => Within.ite (fun _ => trivial) fun _ => ⟨trivial, fun _ _ => ?_⟩⟩
  refine ⟨rfl, fun _ _ => (sysmemStatusLocked_within trivial (fun _ _ _ _ => trivial) fun _ _ _ => trivial).bind fun _ => ?_⟩
  exact ⟨rfl, fun _ _ => trivial⟩

/-! ## Handles: mappings and windows -/

/-- Sections that act for the handle: what they insert, remove or check is its own. -/
def Section.OfFile (fileObject : Option FileObject) : Section → Prop
  | .insertMapping m => fileObject = some m.fileObject ∧ (m.tlbId = -1 ∨ 0 ≤ m.tlbId)
  | .appendMapping m => fileObject = some m.fileObject ∧ m.tlbId = -1
  | .takeMapping fo _ | .allocateTlb fo | .freeTlb fo _ | .checkTlbOwner fo _ =>
    fileObject = some fo
  | _ => False

/-- What creating and destroying mappings and windows for a handle may do. -/
def handleFoot (fileObject : Option FileObject) : Op → Prop
  | .acquire l | .release l => l = .arc
  | .locked s => s.OfFile fileObject
  | .allocPool | .freePool _ | .referenceProcess _ | .dereferenceProcess _
  | .attach _ | .detach _ | .mapLockedPages _ _ _ | .unmapLockedPages _ _
  | .mapView _ _ _ | .unmapView _ => True
  | o => o.plain

/-- The parts of tearing a mapping down, for a footprint that contains them. -/
structure TeardownScope (K : Op → Prop) : Prop where
  currentProcess : K .currentProcess
  exitPending : ∀ p, K (.exitPending p)
  attach : ∀ p, K (.attach p)
  detach : ∀ p, K (.detach p)
  unmapView : ∀ base, K (.unmapView base)
  unmapLockedPages : ∀ va m, K (.unmapLockedPages va m)
  freeMdl : ∀ m, K (.freeMdl m)
  dereferenceProcess : ∀ p, K (.dereferenceProcess p)
  freePool : ∀ a, K (.freePool a)

/-- A view is unmapped by its kind. -/
theorem unmapUserView_only {K : Op → Prop} (h : TeardownScope K) (m : UserMapping) :
    (unmapUserView m).Only K := by
  unfold unmapUserView
  cases m.kind with
  | sectionView => exact ⟨h.unmapView _, fun _ _ => trivial⟩
  | mdl => exact (within_perform _).mpr (h.unmapLockedPages _ _)

/-- It is unmapped in its process, where that is alive. -/
theorem teardownView_only {K : Op → Prop} (h : TeardownScope K) (m : UserMapping) :
    (teardownView m).Only K := by
  refine ⟨h.currentProcess, fun p _ => Within.ite (fun _ => unmapUserView_only h m) fun _ => ?_⟩
  refine ⟨h.exitPending _, fun pending _ => Within.ite (fun _ => ?_) fun _ => trivial⟩
  refine ⟨h.attach _, fun saved _ => (unmapUserView_only h m).bind fun _ => ?_⟩
  exact (within_perform _).mpr (h.detach _)

/-- Destroying a record unmaps its view and lets go of what it holds. -/
theorem destroyMapping_only {K : Op → Prop} (h : TeardownScope K) (m : UserMapping) :
    (destroyMapping m).Only K := by
  refine (teardownView_only h m).bind fun _ => ?_
  have hfree : (freeMdlOf m.mdl).Only K := by
    cases m.mdl with
    | none => trivial
    | some mdl => exact (within_perform _).mpr (h.freeMdl _)
  refine hfree.bind fun _ => ⟨h.dereferenceProcess _, fun _ _ => ?_⟩
  exact (within_perform _).mpr (h.freePool _)

/-- One record after the other. -/
theorem destroyAll_only {K : Op → Prop} (h : TeardownScope K) (ms : List UserMapping) :
    (destroyAll ms).Only K := by
  induction ms with
  | nil => trivial
  | cons m ms ih => exact (destroyMapping_only h m).bind fun _ => ih

/-- The ioctls on mappings may destroy. -/
theorem handleFoot_teardown (fileObject : Option FileObject) :
    TeardownScope (handleFoot fileObject) :=
  ⟨trivial, fun _ => trivial, fun _ => trivial, fun _ => trivial, fun _ => trivial,
    fun _ _ => trivial, fun _ => trivial, fun _ => trivial, fun _ => trivial⟩

/-- The parts of making a mapping but the view and the record, for a footprint that contains
them. -/
structure MakingScope (K : Op → Prop) : Prop extends TeardownScope K where
  silent : ∀ o, o.silent → K o
  allocPool : K .allocPool
  referenceProcess : ∀ p, K (.referenceProcess p)

/-- The parts of making a mapping for a handle, for a footprint that contains them. -/
structure MappingScope (fileObject : Option FileObject) (K : Op → Prop) : Prop
    extends MakingScope K where
  mapLockedPages : ∀ m wc a, K (.mapLockedPages m wc a)
  mapView : ∀ offset size a, K (.mapView offset size a)
  insertMapping : ∀ m, (Section.insertMapping m).OfFile fileObject → K (.locked (.insertMapping m))

/-- They may make mappings for their own handle. -/
theorem handleFoot_mapping (fileObject : Option FileObject) :
    MappingScope fileObject (handleFoot fileObject) where
  toTeardownScope := handleFoot_teardown fileObject
  silent o ho := by cases o <;> first | exact ho | exact (ho : False).elim
  allocPool := trivial
  referenceProcess _ := trivial
  mapLockedPages _ _ _ := trivial
  mapView _ _ _ := trivial
  insertMapping _ hm := hm

section Mapping

variable {fileObject : Option FileObject} {K : Op → Prop}

/-- The parts of making a view in a process but the mapping itself, for a footprint that contains
them. -/
structure ViewingScope (K : Op → Prop) : Prop where
  silent : ∀ o, o.silent → K o
  attach : ∀ p, K (.attach p)
  detach : ∀ p, K (.detach p)

theorem MakingScope.viewing (h : MakingScope K) : ViewingScope K := ⟨h.silent, h.attach, h.detach⟩

/-- A thread attaches, if it has to. -/
theorem attachTo_only (h : ViewingScope K) (p : Process) : (attachTo p).Only K :=
  ⟨h.silent _ trivial, fun _ _ =>
    Within.ite (fun _ => ⟨h.attach _, fun _ _ => trivial⟩) fun _ => trivial⟩

/-- It detaches if it attached. -/
theorem detachFrom_only (h : ViewingScope K) (saved : Option Process) : (detachFrom saved).Only K := by
  cases saved with
  | none => trivial
  | some p => exact (within_perform _).mpr (h.detach _)

/-- The MDL built for a range of device memory. -/
def mdlOf (phys length : UInt64) : Mdl :=
  ⟨phys, length.toUInt32, pfnArray (phys.toInt64 >>> 12).toUInt64 (length >>> 12).toUInt32.toNat⟩

/-- The MDL mapped is the one built for the range. -/
theorem mapIoToUser_within (h : ViewingScope K) {phys length : UInt64}
    (hmap : ∀ wc a, K (.mapLockedPages (mdlOf phys length) wc a)) (wc : Bool) (p : Process) (addr : Nat) :
    (mapIoToUser phys length wc p addr).Only K := by
  refine ⟨h.silent _ trivial, fun _ _ => Within.ite (fun _ => trivial) fun _ => ?_⟩
  refine (attachTo_only h p).bind fun saved => ⟨hmap _ _, fun r _ => ?_⟩
  refine (detachFrom_only h saved).bind fun _ => ?_
  cases r with
  | error => exact ⟨h.silent _ trivial, fun _ _ => trivial⟩
  | ok va => trivial

theorem mappingProcess_only (h : ViewingScope K) : mappingProcess.Only K := by
  refine ⟨h.silent _ trivial, fun r _ => ?_⟩
  cases r with
  | none => exact (within_perform _).mpr (h.silent _ trivial)
  | some p => trivial

/-- Creating a mapping maps and records the MDL of its range, for its handle. -/
theorem createUserMapping_within (h : MakingScope K) {phys length : UInt64} {tlbId : Int}
    (hmap : ∀ wc a, K (.mapLockedPages (mdlOf phys length) wc a))
    (hinsert : ∀ m : UserMapping, fileObject = some m.fileObject → m.kind = .mdl →
      m.tlbId = tlbId → K (.locked (.insertMapping m))) (cacheMode : UInt32) :
    (createUserMapping fileObject phys length cacheMode tlbId).Only K := by
  cases fileObject with
  | none => trivial
  | some fo =>
    refine (mappingProcess_only h.viewing).bind fun p => ⟨h.allocPool, fun addr _ => ?_⟩
    cases addr with
    | none => trivial
    | some addr =>
      refine ⟨h.referenceProcess _, fun _ _ => (mapIoToUser_within h.viewing hmap _ _ _).bind fun r => ?_⟩
      cases r with
      | error => exact ⟨h.dereferenceProcess _, fun _ _ => ⟨h.freePool _, fun _ _ => trivial⟩⟩
      | ok r =>
        refine ⟨hinsert _ rfl rfl rfl, fun inserted _ =>
          Within.ite (fun _ => ?_) fun _ => trivial⟩
        exact (destroyMapping_only h.toTeardownScope _).bind fun _ => trivial

/-- MAP_BAR and MAP_TLB make their record, by one function. -/
theorem createUserMapping_only (h : MappingScope fileObject K) (phys length : UInt64)
    (cacheMode : UInt32) {tlbId : Int} (ht : tlbId = -1 ∨ 0 ≤ tlbId) :
    (createUserMapping fileObject phys length cacheMode tlbId).Only K :=
  createUserMapping_within h.toMakingScope (fun wc a => h.mapLockedPages _ wc a)
    (fun m hfile _ htlb => h.insertMapping m ⟨hfile, htlb ▸ ht⟩) cacheMode

/-- MAP_SYSMEM maps a view of the section. -/
theorem mapSysmemToUser_only (h : ViewingScope K) (hmap : ∀ offset size a, K (.mapView offset size a))
    (phys length : UInt64) (p : Process) (addr : Nat) : (mapSysmemToUser phys length p addr).Only K := by
  refine ⟨h.silent _ trivial, fun _ _ => Within.ite (fun _ => trivial) fun _ => ?_⟩
  refine (attachTo_only h p).bind fun saved => ⟨hmap _ _ _, fun r _ => ?_⟩
  refine (detachFrom_only h saved).bind fun _ => ⟨h.silent _ trivial, fun _ _ => ?_⟩
  cases r with
  | error => trivial
  | ok base => trivial

end Mapping

/-- MAP_BAR, in a footprint that contains its parts. -/
theorem ioctlMapBar_within {K : Op → Prop} (hp : ∀ o, o.plain → K o) {fileObject : Option FileObject}
    (h : MappingScope fileObject K) : (ioctlMapBar fileObject).Only K := by
  refine ⟨hp _ trivial, fun _ _ => Within.ite (fun _ => trivial) fun _ => ?_⟩
  refine ⟨hp _ trivial, fun _ _ => Within.ite (fun _ => trivial) fun _ => ⟨hp _ trivial, fun c _ => ?_⟩⟩
  refine ⟨hp _ trivial, fun _ _ => ⟨hp _ trivial, fun _ _ => ⟨hp _ trivial, fun _ _ => ⟨hp _ trivial, fun _ _ => ?_⟩⟩⟩⟩
  refine Within.ite (fun _ => trivial) fun _ => ?_
  refine (createUserMapping_only h _ _ _ (.inl rfl)).bind fun r => ?_
  cases r with
  | error => trivial
  | ok va =>
    exact ⟨hp _ trivial, fun _ _ => ⟨hp _ trivial, fun _ _ => ⟨hp _ trivial, fun _ _ => ⟨hp _ trivial, fun _ _ =>
      trivial⟩⟩⟩⟩

/-- MAP_BAR lists its record with no window, MAP_TLB with the one it checked. -/
theorem ioctlMapBar_only (fileObject : Option FileObject) :
    (ioctlMapBar fileObject).Only (handleFoot fileObject) :=
  ioctlMapBar_within (fun o ho => by cases o <;> first | exact ho | exact (ho : False).elim) (handleFoot_mapping fileObject)

/-- The parts of ALLOCATE_TLB and FREE_TLB, for a footprint that contains them. -/
structure WindowScope (fileObject : Option FileObject) (K : Op → Prop) : Prop where
  plain : ∀ o, o.plain → K o
  allocate : ∀ fo, fileObject = some fo → K (.locked (.allocateTlb fo))
  free : ∀ fo i, fileObject = some fo → K (.locked (.freeTlb fo i))

/-- The ioctls on windows enter sections of their own handle. -/
theorem handleFoot_window (fileObject : Option FileObject) :
    WindowScope fileObject (handleFoot fileObject) where
  plain o ho := by cases o <;> first | exact ho | exact (ho : False).elim
  allocate _ h := h
  free _ _ h := h

/-- UNMAP_BAR, in a footprint that contains its parts. -/
theorem ioctlUnmapBar_within {K : Op → Prop} (hp : ∀ o, o.plain → K o) (ht : TeardownScope K)
    {fileObject : Option FileObject}
    (htake : ∀ fo va, fileObject = some fo → K (.locked (.takeMapping fo va))) :
    (ioctlUnmapBar fileObject).Only K := by
  cases fileObject with
  | none => trivial
  | some fo =>
    refine ⟨hp _ trivial, fun _ _ => Within.ite (fun _ => trivial) fun _ => ⟨hp _ trivial, fun va _ => ?_⟩⟩
    refine ⟨htake fo _ rfl, fun found _ => ?_⟩
    cases found with
    | none => trivial
    | some m => exact (destroyMapping_only ht m).bind fun _ => trivial

/-- UNMAP_BAR searches for its own handle, and destroys. -/
theorem ioctlUnmapBar_only (fileObject : Option FileObject) :
    (ioctlUnmapBar fileObject).Only (handleFoot fileObject) :=
  ioctlUnmapBar_within (handleFoot_window fileObject).plain (handleFoot_teardown fileObject)
    fun _ _ h => h

/-- MAP_TLB, in a footprint that contains its parts. -/
theorem ioctlMapTlb_within {K : Op → Prop} (hp : ∀ o, o.plain → K o) {fileObject : Option FileObject}
    (h : MappingScope fileObject K) (hcheck : ∀ fo i, fileObject = some fo → K (.locked (.checkTlbOwner fo i))) :
    (ioctlMapTlb fileObject).Only K := by
  cases fileObject with
  | none => trivial
  | some fo =>
    refine ⟨hp _ trivial, fun _ _ => Within.ite (fun _ => trivial) fun _ => ?_⟩
    refine ⟨hp _ trivial, fun _ _ => Within.ite (fun _ => trivial) fun _ => ⟨hp _ trivial, fun mode _ => ?_⟩⟩
    refine Within.ite (fun _ => trivial) fun _ => ⟨hp _ trivial, fun id _ => ⟨hcheck fo _ rfl, fun _ _ => ?_⟩⟩
    refine Within.ite (fun _ => trivial) fun _ => ⟨hp _ trivial, fun c _ => ?_⟩
    refine Within.ite (fun _ => trivial) fun _ => ?_
    refine (createUserMapping_only h _ _ _ (.inr (Int.natCast_nonneg _))).bind fun r => ?_
    cases r with
    | error => trivial
    | ok va => exact ⟨hp _ trivial, fun _ _ => ⟨hp _ trivial, fun _ _ => trivial⟩⟩

theorem ioctlMapTlb_only (fileObject : Option FileObject) :
    (ioctlMapTlb fileObject).Only (handleFoot fileObject) :=
  ioctlMapTlb_within (handleFoot_window fileObject).plain (handleFoot_mapping fileObject) fun _ _ h => h

/-- ALLOCATE_TLB and FREE_TLB are one section each. -/
theorem ioctlAllocateTlb_only {fileObject : Option FileObject} {K : Op → Prop}
    (h : WindowScope fileObject K) : (ioctlAllocateTlb fileObject).Only K := by
  cases fileObject with
  | none => trivial
  | some fo =>
    refine ⟨h.plain _ trivial, fun _ _ => Within.ite (fun _ => trivial) fun _ => ?_⟩
    refine ⟨h.plain _ trivial, fun _ _ => Within.ite (fun _ => trivial) fun _ => ?_⟩
    refine ⟨h.plain _ trivial, fun size _ => ?_⟩
    refine Within.ite (fun _ => trivial) fun _ => ⟨h.allocate fo rfl, fun id _ => ?_⟩
    cases id with
    | none => trivial
    | some id => exact ⟨h.plain _ trivial, fun _ _ => ⟨h.plain _ trivial, fun _ _ => trivial⟩⟩

theorem ioctlFreeTlb_only {fileObject : Option FileObject} {K : Op → Prop}
    (h : WindowScope fileObject K) : (ioctlFreeTlb fileObject).Only K := by
  cases fileObject with
  | none => trivial
  | some fo =>
    refine ⟨h.plain _ trivial, fun _ _ => Within.ite (fun _ => trivial) fun _ => ?_⟩
    refine ⟨h.plain _ trivial, fun _ _ => Within.ite (fun _ => trivial) fun _ => ?_⟩
    exact ⟨h.plain _ trivial, fun _ _ => (within_perform _).mpr (h.free fo _ rfl)⟩

/-- MAP_SYSMEM, in a footprint that contains its parts. The record it lists has no MDL. -/
theorem ioctlMapSysmem_within {K : Op → Prop} (hp : ∀ o, o.plain → K o) (h : MakingScope K)
    (hmap : ∀ offset size a, K (.mapView offset size a)) (ha : K (.acquire .arc)) (hr : K (.release .arc))
    {fileObject : Option FileObject}
    (happend : ∀ m : UserMapping, fileObject = some m.fileObject → m.tlbId = -1 → m.mdl = none →
      K (.locked (.appendMapping m))) :
    (ioctlMapSysmem fileObject).Only K := by
  cases fileObject with
  | none => trivial
  | some fo =>
    refine ⟨hp _ trivial, fun _ _ => Within.ite (fun _ => trivial) fun _ => ?_⟩
    refine ⟨hp _ trivial, fun _ _ => Within.ite (fun _ => trivial) fun _ => ?_⟩
    refine ⟨hp _ trivial, fun _ _ => ⟨hp _ trivial, fun _ _ => Within.ite (fun _ => trivial) fun _ => ?_⟩⟩
    refine ⟨ha, fun _ _ => ⟨hp _ trivial, fun c _ => ⟨hr, fun _ _ => ?_⟩⟩⟩
    refine Within.ite (fun _ => trivial) fun _ => ⟨hp _ trivial, fun c _ => ?_⟩
    refine Within.ite (fun _ => trivial) fun _ => (mappingProcess_only h.viewing).bind fun p => ?_
    refine ⟨h.allocPool, fun addr _ => ?_⟩
    cases addr with
    | none => trivial
    | some addr =>
      refine ⟨h.referenceProcess _, fun _ _ => ⟨hp _ trivial, fun c _ => ?_⟩⟩
      refine (mapSysmemToUser_only h.viewing hmap _ _ _ _).bind fun r => ?_
      cases r with
      | error => exact ⟨h.dereferenceProcess _, fun _ _ => ⟨h.freePool _, fun _ _ => trivial⟩⟩
      | ok r =>
        refine ⟨happend _ rfl rfl rfl, fun _ _ => ⟨hp _ trivial, fun _ _ => ?_⟩⟩
        exact ⟨hp _ trivial, fun _ _ => ⟨hp _ trivial, fun _ _ => ⟨hp _ trivial, fun _ _ => trivial⟩⟩⟩

theorem ioctlMapSysmem_only (fileObject : Option FileObject) :
    (ioctlMapSysmem fileObject).Only (handleFoot fileObject) :=
  ioctlMapSysmem_within (handleFoot_window fileObject).plain (handleFoot_mapping fileObject).toMakingScope
    (fun _ _ _ => trivial) rfl rfl fun _ hfile htlb _ => ⟨hfile, htlb⟩

/-! ## CONFIGURE_TLB -/

/-- The configuration is read field by field. -/
theorem inTlbConfig_bind_only {K : Op → Prop} (hK : ∀ off len, K (.inField off len)) (off : Nat)
    {α : Type} {f : NocTlbConfig → Drv α} (hf : ∀ cfg, (f cfg).Only K) :
    (inTlbConfig off >>= f).Only K :=
  ⟨hK _ _, fun _ _ => ⟨hK _ _, fun _ _ => ⟨hK _ _, fun _ _ => ⟨hK _ _, fun _ _ => ⟨hK _ _,
    fun _ _ => ⟨hK _ _, fun _ _ => ⟨hK _ _, fun _ _ => ⟨hK _ _, fun _ _ => ⟨hK _ _, fun _ _ =>
      ⟨hK _ _, fun _ _ => hf _⟩⟩⟩⟩⟩⟩⟩⟩⟩⟩

theorem inTlbConfig_only {K : Op → Prop} (hK : ∀ off len, K (.inField off len)) (off : Nat) :
    (inTlbConfig off).Only K := by
  have h := inTlbConfig_bind_only hK off (f := Prog.pure) fun _ => trivial
  rwa [bind_pure] at h

/-- CONFIGURE_TLB checks the owner and programs the window, under StateLock. -/
theorem configureLocked_within {J : Answers} {K : Op → Prop} (hl : K .load)
    (hw : SeenMapped J (·.tlbRegs) → ∀ c, J .load c → ∀ off v, K (.mmioWrite c.tlbRegs off v))
    (fo : FileObject) (tlbId : Nat) (cfg : NocTlbConfig) :
    (configureLocked fo tlbId cfg).Within J K := by
  refine ⟨hl, fun c hc => Within.ite (fun _ => trivial) fun _ => ?_⟩
  refine Within.ite (fun _ => trivial) fun hn => ?_
  have hregs : SeenMapped J (·.tlbRegs) := ⟨c, hc, hn⟩
  exact (programTlb2M_within hl (fun c hc off _ v => hw hregs c hc off v) _).bind fun _ => trivial

/-- CONFIGURE_TLB, in a footprint that contains its parts. -/
theorem ioctlConfigureTlb_within {K : Op → Prop} (hp : ∀ o, o.plain → K o)
    (ha : K (.acquire .state)) (hr : K (.release .state)) (hw : ∀ p off v, K (.mmioWrite p off v))
    (fileObject : Option FileObject) : (ioctlConfigureTlb fileObject).Only K := by
  cases fileObject with
  | none => trivial
  | some fo =>
    refine ⟨hp _ trivial, fun _ _ => Within.ite (fun _ => trivial) fun _ => ?_⟩
    refine ⟨hp _ trivial, fun _ _ => ⟨hp _ trivial, fun _ _ => ⟨hp _ trivial, fun _ _ => ?_⟩⟩⟩
    refine Within.ite (fun _ => trivial) fun _ => ?_
    refine inTlbConfig_bind_only (fun _ _ => hp _ trivial) _ fun cfg => ?_
    refine Within.ite (fun _ => trivial) fun _ => Within.ite (fun _ => trivial) fun _ => ?_
    refine ⟨hp _ trivial, fun _ _ => ⟨ha, fun _ _ => ?_⟩⟩
    refine (configureLocked_within (hp _ trivial) (fun _ _ _ _ _ => hw _ _ _) _ _ _).bind fun _ => ?_
    exact ⟨hr, fun _ _ => trivial⟩

theorem ioctlConfigureTlb_only (fileObject : Option FileObject) :
    (ioctlConfigureTlb fileObject).Only (deviceFoot .state) :=
  ioctlConfigureTlb_within (fun _ => deviceFoot_of_plain) rfl rfl (fun _ _ _ => trivial) fileObject

/-! ## Reset -/

/-- A store that changes only what the reset ioctls and the code under ArcLock record. -/
def ResetFrame (f : DeviceContext → DeviceContext) : Prop :=
  ∀ c, f c = { c with
    arcRoute := (f c).arcRoute
    sysmemVerified := (f c).sysmemVerified
    pcieTileX := (f c).pcieTileX
    sysmemStage := (f c).sysmemStage
    sysmemLastStatus := (f c).sysmemLastStatus
    sysmemNocIdRaw := (f c).sysmemNocIdRaw
    sysmemProbes := (f c).sysmemProbes
    outboundIatu := (f c).outboundIatu
    needsHwInit := (f c).needsHwInit
    savedConfig := (f c).savedConfig
    savedConfigValid := (f c).savedConfigValid }

/-- Restricting the device is among the stores of the two reset ioctls. -/
theorem RestrictFrame.reset {f : DeviceContext → DeviceContext} (h : RestrictFrame f) :
    ResetFrame f := by
  intro c
  have hc := (h c).1
  have hroute : (f c).arcRoute = c.arcRoute := by rw [hc]
  have htile : (f c).pcieTileX = c.pcieTileX := by rw [hc]
  have hstage : (f c).sysmemStage = c.sysmemStage := by rw [hc]
  have hlast : (f c).sysmemLastStatus = c.sysmemLastStatus := by rw [hc]
  have hraw : (f c).sysmemNocIdRaw = c.sysmemNocIdRaw := by rw [hc]
  have hprobes : (f c).sysmemProbes = c.sysmemProbes := by rw [hc]
  have hiatu : (f c).outboundIatu = c.outboundIatu := by rw [hc]
  rw [hroute, htile, hstage, hlast, hraw, hprobes, hiatu]
  exact hc

/-- So is what is recorded under ArcLock. -/
theorem ArcFrame.reset {f : DeviceContext → DeviceContext} (h : ArcFrame f) : ResetFrame f := by
  intro c
  have hneeds : (f c).needsHwInit = c.needsHwInit := by
    rw [h c]
  have hsaved : (f c).savedConfig = c.savedConfig := by
    rw [h c]
  have hvalid : (f c).savedConfigValid = c.savedConfigValid := by
    rw [h c]
  rw [hneeds, hsaved, hvalid]
  exact h c

/-- The generation fence. -/
def Section.IsFence : Section → Prop
  | .fence => True
  | _ => False

/-- What the reset ioctls may do, with the sections in `G`. Only code that also fences
writes the reset trigger. -/
def resetFoot (G : Section → Prop) : Op → Prop
  | .acquire l | .release l => l = .arc
  | .mmioRead _ _ | .mmioWrite _ _ _ | .bufferWrite _ _ | .setFileGen _ _ => True
  | .setBusData off _ => off = ifcTimerControlOff → G .fence
  | .locked s => G s
  | .store f => ResetFrame f
  | o => o.plain

variable {G : Section → Prop}

/-- The reset ioctls may do what is done under ArcLock. -/
theorem arcFoot_reset {o : Op} (h : arcFoot o) : resetFoot G o := by
  cases o <;> first | exact h | exact h.reset | exact (h : False).elim

/-- Config accesses other than the reset trigger, for a footprint that contains them. -/
structure BusScope (K : Op → Prop) : Prop where
  plain : ∀ o, o.plain → K o
  setBusData : ∀ off data, off ≠ ifcTimerControlOff → K (.setBusData off data)

/-- What the recovery does on the bus, for a footprint that contains it. -/
structure RestoreScope (K : Op → Prop) : Prop where
  silent : ∀ o, o.silent → K o
  setBusData : ∀ off data, off ≠ ifcTimerControlOff → K (.setBusData off data)

/-- A scope that may write any config dword but the trigger may restore them. -/
theorem BusScope.restoring {K : Op → Prop} (h : BusScope K) : RestoreScope K :=
  ⟨fun o ho => h.plain o ho.plain, h.setBusData⟩

/-- The parts of the reset ioctls that work on config space, for a footprint that
contains them. -/
structure ConfigScope (K : Op → Prop) : Prop extends BusScope K where
  setFileGen : ∀ fo g, K (.setFileGen fo g)
  store : ∀ f, RestrictFrame f → K (.store f)

/-- The reset footprint has the bus, the stores and the generation of a handle. -/
theorem configScope_resetFoot : ConfigScope (resetFoot G) where
  plain o ho := by cases o <;> first | exact ho | exact (ho : False).elim
  setBusData _ _ hoff heq := absurd heq hoff
  setFileGen _ _ := trivial
  store _ hf := hf.reset

section Config

variable {K : Op → Prop}

/-- Presence is one config read. -/
theorem devicePresent_only (hsilent : ∀ o, o.silent → K o) : devicePresent.Only K :=
  ⟨hsilent _ trivial, fun _ _ => ⟨hsilent _ trivial, fun _ _ => trivial⟩⟩

theorem cfgRead_only (hsilent : ∀ o, o.silent → K o) (off len : Nat) : (cfgRead off len).Only K :=
  ⟨hsilent _ trivial, fun _ _ => trivial⟩

/-- A config write, of anything but the trigger. -/
theorem cfgWrite_only (h : BusScope K) {off : Nat} (hoff : off ≠ ifcTimerControlOff)
    (data : List UInt8) : (cfgWrite off data).Only K :=
  ⟨h.setBusData _ _ hoff, fun _ _ => trivial⟩

/-- The config is read and recorded, unless the device is restricted already. -/
theorem saveConfigOnce_only (hsilent : ∀ o, o.silent → K o) (hstore : ∀ f, RestrictFrame f → K (.store f)) :
    saveConfigOnce.Only K := by
  refine ⟨hsilent _ trivial, fun c _ => Within.ite (fun _ => trivial) fun _ => ?_⟩
  refine (cfgRead_only hsilent _ _).bind fun ⟨data, full⟩ => ⟨hstore _ fun _ => ⟨rfl, id⟩, fun _ _ => ?_⟩
  exact Within.ite (fun _ => trivial) fun _ => ⟨hstore _ fun _ => ⟨rfl, id⟩, fun _ _ => trivial⟩

/-- The resetting handle gets the new generation. -/
theorem carryForward_only (hload : K .load) (hgen : ∀ fo g, K (.setFileGen fo g)) (fileObject : Option FileObject) :
    (carryForward fileObject).Only K := by
  cases fileObject with
  | none => trivial
  | some fo => exact ⟨hload, fun _ _ => (within_perform _).mpr (hgen _ _)⟩

/-- RESET_DEVICE under ArcLock writes the COMMAND register and the two timer registers. -/
theorem armReset_within (hsilent : ∀ o, o.silent → K o) (hstore : ∀ f, RestrictFrame f → K (.store f))
    (hgen : ∀ fo g, K (.setFileGen fo g)) (hf : K (.locked .fence))
    (hw : ∀ off, off = pciCfgCommand ∨ off = ifcTimerTargetOff ∨ off = ifcTimerControlOff →
      ∀ data : List UInt8, data.length ≤ 4 → K (.setBusData off data))
    (fileObject : Option FileObject) : (armReset fileObject).Only K := by
  have hwrite : ∀ off, off = pciCfgCommand ∨ off = ifcTimerTargetOff ∨ off = ifcTimerControlOff →
      ∀ data : List UInt8, data.length ≤ 4 → (cfgWrite off data).Only K :=
    fun off hoff data hlen => ⟨hw off hoff data hlen, fun _ _ => trivial⟩
  refine (devicePresent_only hsilent).bind fun _ => Within.ite (fun _ => trivial) fun _ => ?_
  refine (saveConfigOnce_only hsilent hstore).bind fun _ => Within.ite (fun _ => trivial) fun _ => ?_
  refine (cfgRead_only hsilent _ _).bind fun ⟨data, full⟩ => Within.ite (fun _ => trivial) fun _ => ?_
  refine (hwrite _ (.inl rfl) _ (by simp)).bind fun _ => Within.ite (fun _ => trivial) fun _ => ?_
  refine ⟨hf, fun _ _ => (carryForward_only (hsilent _ trivial) hgen _).bind fun _ => ?_⟩
  refine ⟨hstore _ fun _ => ⟨rfl, id⟩, fun _ _ => ⟨hstore _ fun _ => ⟨rfl, nofun⟩, fun _ _ => ?_⟩⟩
  refine (hwrite _ (.inr (.inl rfl)) _ (by simp)).bind fun _ => ?_
  exact (hwrite _ (.inr (.inr rfl)) _ (by simp)).bind fun _ => trivial

/-- RESET_DEVICE saves, marks, fences and restricts before it pulls the trigger. -/
theorem armReset_only (h : ConfigScope K) (hf : K (.locked .fence))
    (ht : ∀ data, K (.setBusData ifcTimerControlOff data)) (fileObject : Option FileObject) :
    (armReset fileObject).Only K := by
  refine armReset_within h.restoring.silent h.store h.setFileGen hf (fun off hoff data _ => ?_) fileObject
  rcases hoff with rfl | rfl | rfl
  · exact h.setBusData _ _ (by decide)
  · exact h.setBusData _ _ (by decide)
  · exact ht data

/-- The dwords listed are written, and no other. -/
theorem restoreDwords_only (saved : Nat → UInt8) (is : List Nat)
    (h : ∀ i ∈ is, ∀ data, K (.setBusData (i * 4) data)) (ok : Bool) : (restoreDwords saved ok is).Only K := by
  induction is generalizing ok with
  | nil => trivial
  | cons i is ih =>
    have hrest : ∀ ok, (restoreDwords saved ok is).Only K :=
      ih fun j hj => h j (List.mem_cons_of_mem i hj)
    exact Within.ite (fun _ => hrest _) fun _ => ⟨h i List.mem_cons_self _, fun _ _ => hrest _⟩

/-- The restore writes the first 256 bytes of config space. -/
theorem resetRestoreConfig_only (h : ∀ off < pciCfgSaveBytes, ∀ data, K (.setBusData off data))
    (saved : Nat → UInt8) : (resetRestoreConfig saved).Only K := by
  have hdword : ∀ i ∈ List.range (pciCfgSaveBytes / 4), i * 4 < pciCfgSaveBytes := by
    intro i hi
    have hlt := List.mem_range.mp hi
    unfold pciCfgSaveBytes at hlt ⊢
    omega
  refine (restoreDwords_only saved _ (fun i hi => h _ (hdword i hi)) _).bind fun _ => ?_
  exact ⟨h _ (by decide) _, fun _ _ => trivial⟩

/-- The timer is far above the saved config. -/
theorem RestoreScope.restore (h : RestoreScope K) : ∀ off < pciCfgSaveBytes, ∀ data, K (.setBusData off data) := by
  intro off hoff data
  exact h.setBusData off data (Nat.ne_of_lt (Nat.lt_trans hoff (by decide)))

end Config

/-- The readback programs the kernel window and reads its registers. -/
theorem kernelTlbSanityCheck_within {J : Answers} {K : Op → Prop} (hl : K .load)
    (hregs : ∀ c, J .load c → ∀ off, WindowReg kernelTlbIndex off →
      K (.mmioRead c.tlbRegs off) ∧ ∀ v, K (.mmioWrite c.tlbRegs off v)) :
    kernelTlbSanityCheck.Within J K := by
  refine (programTlb2M_within hl (fun c hc off ho => (hregs c hc off ho).2) _).bind fun _ => ?_
  refine ⟨hl, fun c hc => ?_⟩
  have hread := fun off ho => (hregs c hc off ho).1
  refine ⟨hread _ (.inl rfl), fun _ _ => ⟨hread _ (.inr (.inl rfl)), fun _ _ => ?_⟩⟩
  refine ⟨hread _ (.inr (.inr (.inl rfl))), fun _ _ => ?_⟩
  exact Within.ite (fun _ => trivial) fun _ => trivial

/-- The recovery stores a fresh image, and in the end that no reset is in flight. -/
theorem recoverReset_within {K : Op → Prop} (h : RestoreScope K)
    (hsave : ∀ data, K (.store fun c => c.saveConfig data))
    (hclear : K (.store fun c => { c with needsHwInit := false }))
    (hregs : ∀ p off, K (.mmioRead p off) ∧ ∀ v, K (.mmioWrite p off v)) : recoverReset.Only K := by
  have hload : K .load := h.silent _ trivial
  refine ⟨hload, fun _ _ => Within.ite (fun _ => trivial) fun _ => ⟨hload, fun c _ => ?_⟩⟩
  refine Within.ite (fun _ => trivial) fun hp => ?_
  refine (devicePresent_only h.silent).bind fun _ => Within.ite (fun _ => trivial) fun _ => ?_
  refine (cfgRead_only h.silent _ _).bind fun ⟨data, full⟩ => Within.ite (fun _ => trivial) fun _ => ?_
  refine Within.ite (fun _ => trivial) fun _ => ⟨hload, fun c' _ => ?_⟩
  refine (resetRestoreConfig_only h.restore _).bind fun _ => Within.ite (fun _ => trivial) fun _ => ?_
  refine (cfgRead_only h.silent _ _).bind fun ⟨data, full⟩ => ⟨hsave data, fun _ _ => ?_⟩
  refine (kernelTlbSanityCheck_within hload fun _ _ off _ => hregs _ off).bind
    fun _ => Within.ite (fun _ => trivial) fun _ => ?_
  exact ⟨hclear, fun _ _ => trivial⟩

theorem recoverReset_resetFoot : recoverReset.Only (resetFoot G) :=
  recoverReset_within configScope_resetFoot.toBusScope.restoring (fun _ _ => rfl) (fun _ => rfl)
    fun _ _ => ⟨trivial, fun _ => trivial⟩

/-- POST_RESET is its recovery, and then code under ArcLock. -/
theorem ioctlPostReset_within {K : Op → Prop} (ha : ∀ o, arcFoot o → K o)
    (hrecover : recoverReset.Only K) : ioctlPostReset.Only K := by
  have hplain : ∀ o, o.plain → K o := fun o ho => ha o (deviceFoot_of_plain ho)
  refine ⟨hplain _ trivial, fun _ _ => Within.ite (fun _ => trivial) fun _ => ?_⟩
  refine ⟨hplain _ trivial, fun _ _ => ⟨hplain _ trivial, fun _ _ => Within.ite (fun _ => trivial) fun _ => ?_⟩⟩
  refine ⟨hplain _ trivial, fun c _ => Within.ite (fun _ => trivial) fun _ => ⟨ha _ rfl, fun _ _ => ?_⟩⟩
  refine hrecover.bind fun ⟨status, recovered⟩ => ⟨ha _ rfl, fun _ _ => ?_⟩
  refine Within.ite (fun _ => trivial) fun _ => ?_
  have hpower : ∀ o, powerFoot o → K o := fun o ho => ha o (arcFoot_of_powerFoot ho)
  refine ((powerUpRetry_only _).mono hpower).bind fun _ => ?_
  exact (sysmemArm_only.mono hpower).bind fun _ => trivial

theorem ioctlPostReset_only : ioctlPostReset.Only (resetFoot G) :=
  ioctlPostReset_within (fun _ => arcFoot_reset) recoverReset_resetFoot

/-- RESET_DEVICE enters the busy check and the fence, and no other section. -/
theorem resetDevice_only (hb : G .anyMapping) (hf : G .fence) (fileObject : Option FileObject) :
    (ioctlResetDevice fileObject).Only (resetFoot G) := by
  refine ⟨trivial, fun _ _ => Within.ite (fun _ => trivial) fun _ => ?_⟩
  refine ⟨trivial, fun _ _ => ⟨trivial, fun _ _ => Within.ite (fun _ => trivial) fun _ => ?_⟩⟩
  refine ⟨trivial, fun c _ => Within.ite (fun _ => trivial) fun _ => ⟨hb, fun busy _ => ?_⟩⟩
  refine Within.ite (fun _ => trivial) fun _ => ⟨rfl, fun _ _ => ?_⟩
  exact (armReset_only configScope_resetFoot hf (fun _ _ => hf) _).bind fun _ => ⟨rfl, fun _ _ => trivial⟩

/-! ## Dispatch -/

/-- What a dispatched request other than RESET_DEVICE may do. -/
def ioctlFoot (fileObject : Option FileObject) (o : Op) : Prop :=
  handleFoot fileObject o ∨ (∃ l, deviceFoot l o) ∨ resetFoot (fun _ => False) o

/-- The handlers other than that of RESET_DEVICE, in a footprint that contains their parts. -/
theorem ioctlHandler_within {K : Op → Prop} {fileObject : Option FileObject}
    (hh : ∀ o, handleFoot fileObject o → K o) (ha : ∀ o, arcFoot o → K o)
    {code : Ioctl} (hrecover : code = .postReset → recoverReset.Only K) (hcode : code ≠ .resetDevice)
    (hc : code = .configureTlb → ∀ o, deviceFoot .state o → K o) :
    (ioctlHandler fileObject code).Only K := by
  cases code with
  | getDeviceInfo => exact (getDeviceInfo_only fun _ => deviceFoot_of_plain).mono ha
  | mapBar => exact (ioctlMapBar_only _).mono hh
  | unmapBar => exact ((ioctlUnmapBar_only _).mono hh).bind fun _ => trivial
  | allocateTlb => exact (ioctlAllocateTlb_only (handleFoot_window _)).mono hh
  | freeTlb => exact ((ioctlFreeTlb_only (handleFoot_window _)).mono hh).bind fun _ => trivial
  | configureTlb => exact ((ioctlConfigureTlb_only _).mono (hc rfl)).bind fun _ => trivial
  | mapTlb => exact (ioctlMapTlb_only _).mono hh
  | smcMsg => exact ioctlSmcMsg_only.mono ha
  | resetDevice => exact absurd rfl hcode
  | arcStatus => exact ioctlArcStatus_only.mono ha
  | postReset => exact (ioctlPostReset_within ha (hrecover rfl)).bind fun _ => trivial
  | querySysmem => exact (ioctlQuerySysmem_only (fun _ => deviceFoot_of_plain) rfl rfl).mono ha
  | mapSysmem => exact (ioctlMapSysmem_only _).mono hh
  | sysmemStatus => exact ioctlSysmemStatus_only.mono ha
  | other => trivial

/-- Every handler but that of RESET_DEVICE. -/
theorem ioctlHandler_only (fileObject : Option FileObject) {code : Ioctl}
    (hcode : code ≠ .resetDevice) :
    (ioctlHandler fileObject code).Only (ioctlFoot fileObject) :=
  ioctlHandler_within (fun _ => .inl) (fun _ h => .inr (.inl ⟨_, h⟩))
    (fun _ => recoverReset_resetFoot.mono fun _ h => .inr (.inr h)) hcode fun _ _ h => .inr (.inl ⟨_, h⟩)

/-- Staleness is the handle's generation against the device's. -/
theorem isStale_only {K : Op → Prop} (hl : K .load) (hg : ∀ fo, K (.fileGen fo))
    (fileObject : Option FileObject) : (isStale fileObject).Only K := by
  cases fileObject with
  | none => trivial
  | some fo => exact ⟨hg _, fun _ _ => ⟨hl, fun _ _ => trivial⟩⟩

/-- The dispatcher adds nothing to its handlers. -/
theorem evtIoDeviceControl_only {K : Op → Prop} (hK : ∀ o, o.plain → K o)
    (fileObject : Option FileObject) (code : Ioctl)
    (hh : (ioctlHandler fileObject code).Only K) :
    (evtIoDeviceControl fileObject code).Only K := by
  refine (isStale_only (hK _ trivial) (fun _ => hK _ trivial) _).bind fun _ => ?_
  refine Within.ite (fun _ => (within_perform _).mpr (hK _ trivial)) fun _ => ?_
  refine ⟨hK _ trivial, fun c _ => ?_⟩
  refine Within.ite (fun _ => (within_perform _).mpr (hK _ trivial)) fun _ => ?_
  exact hh.bind fun ⟨_, _⟩ => (within_perform _).mpr (hK _ trivial)

/-- The dispatcher keeps what plain operations and its handler keep. -/
theorem evtIoDeviceControl_keeps {R : Protocol DriverSig Tid World} (hR : R.Steady)
    {P : World → Prop}
    (hplain : ∀ {α : Type} {p : Drv α}, p.Only Op.plain → R.Keeps driverMachine .ioctl P p)
    (fileObject : Option FileObject) (code : Ioctl)
    (hh : R.Keeps driverMachine .ioctl P (ioctlHandler fileObject code)) :
    R.Keeps driverMachine .ioctl P (evtIoDeviceControl fileObject code) := by
  have hdone : ∀ s n, R.Keeps driverMachine .ioctl P (op (.complete s n)) :=
    fun _ _ => hplain ((within_perform _).mpr trivial)
  refine Protocol.Keeps.bind hR (hplain (isStale_only trivial (fun _ => trivial) _)) fun stale => ?_
  split
  · exact hdone _ _
  · refine Protocol.Keeps.bind hR (hplain ((within_perform _).mpr trivial)) fun c => ?_
    split
    · exact hdone _ _
    · exact Protocol.Keeps.bind hR hh fun _ => hdone _ _

/-! ## Hardware arrival and departure, and handles -/

/-- A store that leaves the tables of the mappings and windows, and the generation. -/
def TableFrame (f : DeviceContext → DeviceContext) : Prop :=
  ∀ c, (f c).mappingList = c.mappingList ∧ (f c).tlbOwner = c.tlbOwner ∧
    (f c).tlbBitmap = c.tlbBitmap ∧ (f c).resetGeneration = c.resetGeneration

/-- The reset ioctls store nothing of the tables. -/
theorem ResetFrame.table {f : DeviceContext → DeviceContext} (h : ResetFrame f) :
    TableFrame f := by
  intro c
  rw [h c]
  exact ⟨rfl, rfl, rfl, rfl⟩

theorem ArcFrame.table {f : DeviceContext → DeviceContext} (h : ArcFrame f) : TableFrame f :=
  h.reset.table

/-- A store of what the hardware callbacks record: it verifies nothing, and leaves the
restriction, the saved config and what the arm path last found. -/
def HardwareFrame (f : DeviceContext → DeviceContext) : Prop :=
  ∀ c, f c = { f c with
    needsHwInit := c.needsHwInit
    resetGeneration := c.resetGeneration
    savedConfig := c.savedConfig
    savedConfigValid := c.savedConfigValid
    sysmemStage := c.sysmemStage
    sysmemLastStatus := c.sysmemLastStatus
    sysmemNocIdRaw := c.sysmemNocIdRaw
    sysmemProbes := c.sysmemProbes
    outboundIatu := c.outboundIatu
    mappingList := c.mappingList
    tlbBitmap := c.tlbBitmap
    tlbOwner := c.tlbOwner } ∧
    ((f c).sysmemVerified = true → c.sysmemVerified = true)

/-- Nor do the hardware callbacks, outside their sections. -/
theorem HardwareFrame.table {f : DeviceContext → DeviceContext} (h : HardwareFrame f) :
    TableFrame f := by
  intro c
  rw [(h c).1]
  exact ⟨rfl, rfl, rfl, rfl⟩

/-- The fields of the device context that hold resources. -/
structure Holdings where
  ptr : RegBlock → IoPtr
  va : IoPtr
  size : UInt64
  bus : Bool

/-- What the context says is held. -/
def DeviceContext.holdings (c : DeviceContext) : Holdings :=
  ⟨c.ptr, c.sysmemVa, c.sysmemSize, c.busIfValid⟩

/-- What PrepareHardware may do. -/
def prepareFoot : Op → Prop
  | .store f => HardwareFrame f
  | .mapIoSpace _ _ | .unmapIoSpace _ _ | .allocContiguous _ _ _ | .bufferZero _
  | .queryInterface | .dereferenceInterface => True
  | o => o.plain

/-- What PrepareHardware and ReleaseHardware may do. -/
def hardwareFoot : Op → Prop
  | .acquire _ | .release _ => True
  | .locked s => s = .sweepAll
  | .store f => HardwareFrame f
  | .mapIoSpace _ _ | .unmapIoSpace _ _ | .allocContiguous _ _ _ | .freeContiguous _ _
  | .bufferZero _ | .queryInterface | .dereferenceInterface => True
  | .attach _ | .detach _ | .unmapView _ | .unmapLockedPages _ _ | .dereferenceProcess _
  | .freePool _ => True
  | o => o.plain

/-- PrepareHardware does nothing that the hardware footprint does not have. -/
theorem hardwareFoot_of_prepare {o : Op} (h : prepareFoot o) : hardwareFoot o := by
  cases o <;> first | exact h | exact (h : False).elim

/-- The hardware callbacks may destroy. -/
theorem hardwareFoot_teardown : TeardownScope hardwareFoot :=
  ⟨trivial, fun _ => trivial, fun _ => trivial, fun _ => trivial, fun _ => trivial,
    fun _ _ => trivial, fun _ => trivial, fun _ => trivial, fun _ => trivial⟩

/-- The parts of the hardware callbacks that leave the register blocks alone, for a
footprint that contains them. -/
structure HardwareScope (K : Op → Prop) : Prop where
  silent : ∀ o, o.silent → K o
  store : ∀ f, HardwareFrame f → (∀ c, (f c).ptr = c.ptr) → (∀ c, (f c).arcRoute = c.arcRoute) →
    TileFrame f → K (.store f)
  queryInterface : K .queryInterface
  dereferenceInterface : K .dereferenceInterface
  allocContiguous : ∀ size highest node, K (.allocContiguous size highest node)
  bufferZero : ∀ len, K (.bufferZero len)

/-- A store that leaves what is recorded of the buffer's allocation and of the last attempt to arm
it. -/
def ReportFrame (f : DeviceContext → DeviceContext) : Prop :=
  ∀ c, ((f c).sysmemTierResult = c.sysmemTierResult ∧ (f c).sysmemSize = c.sysmemSize ∧
    (f c).sysmemVa = c.sysmemVa) ∧
    (f c).sysmemStage = c.sysmemStage ∧ (f c).sysmemProbes = c.sysmemProbes

/-- What the hardware callbacks do before they allocate the buffer and after they free it, for a
footprint that contains it: what is recorded of the buffer stays. -/
structure IdentityScope (K : Op → Prop) : Prop where
  silent : ∀ o, o.silent → K o
  store : ∀ f, HardwareFrame f → (∀ c, (f c).ptr = c.ptr) → (∀ c, (f c).arcRoute = c.arcRoute) →
    TileFrame f → ReportFrame f → K (.store f)
  queryInterface : K .queryInterface
  dereferenceInterface : K .dereferenceInterface

/-- What is done before the buffer is allocated is less than the whole. -/
theorem HardwareScope.identity {K : Op → Prop} (h : HardwareScope K) : IdentityScope K where
  silent := h.silent
  store f hf hp hr ht _ := h.store f hf hp hr ht
  queryInterface := h.queryInterface
  dereferenceInterface := h.dereferenceInterface

theorem hardwareScope_prepareFoot : HardwareScope prepareFoot where
  silent o ho := by cases o <;> first | exact ho | exact (ho : False).elim
  store _ hf _ _ _ := hf
  queryInterface := trivial
  dereferenceInterface := trivial
  allocContiguous _ _ _ := trivial
  bufferZero _ := trivial

theorem hardwareScope_hardwareFoot : HardwareScope hardwareFoot where
  silent o ho := hardwareFoot_of_prepare (hardwareScope_prepareFoot.silent o ho)
  store _ hf _ _ _ := hf
  queryInterface := trivial
  dereferenceInterface := trivial
  allocContiguous _ _ _ := trivial
  bufferZero _ := trivial

section Hardware

variable {K : Op → Prop}

/-- The bus interface is queried, and recorded if it is there. -/
theorem queryBusInterface_only (h : IdentityScope K) : queryBusInterface.Only K := by
  refine ⟨h.silent _ trivial, fun c _ => Within.ite (fun _ => trivial) fun _ => ⟨h.queryInterface, fun _ _ => ?_⟩⟩
  refine Within.ite (fun _ => trivial) fun _ => ⟨?_, fun _ _ => trivial⟩
  exact h.store _ (fun _ => ⟨rfl, id⟩) (fun _ => rfl) (fun _ => rfl) (fun _ => .inl rfl)
    fun _ => ⟨⟨rfl, rfl, rfl⟩, rfl, rfl⟩

/-- With the interface held, the identity is read by plain operations and recorded. -/
theorem readPciIdentity_split : ∃ identify : NtStatus → Drv NtStatus,
    readPciIdentity = queryBusInterface >>= identify ∧
    ∀ {K : Op → Prop}, (∀ o, o.silent → K o) →
      (∀ f, HardwareFrame f → (∀ c, (f c).holdings = c.holdings) → (∀ c, (f c).arcRoute = c.arcRoute) →
        TileFrame f → ReportFrame f → K (.store f)) →
      ∀ status, (identify status).Only K := by
  refine ⟨_, rfl, fun hsilent hstore status => Within.ite (fun _ => trivial) fun _ => ?_⟩
  refine ⟨hsilent _ trivial, fun header _ => Within.ite (fun _ => trivial) fun _ => ?_⟩
  refine ⟨hstore _ (fun _ => ⟨rfl, id⟩) (fun _ => rfl) (fun _ => rfl) (fun _ => .inl rfl)
    fun _ => ⟨⟨rfl, rfl, rfl⟩, rfl, rfl⟩, fun _ _ => ⟨?_, fun _ _ => ?_⟩⟩
  · refine hstore _ (fun c => ?_) (fun c => ?_) (fun c => ?_) (fun c => ?_) fun c => ?_ <;>
      cases isDeviceType header <;>
      first | exact ⟨rfl, id⟩ | exact ⟨⟨rfl, rfl, rfl⟩, rfl, rfl⟩ | exact .inl rfl | rfl
  · refine ⟨hsilent _ trivial, fun r _ => ?_⟩
    cases r with
    | error => trivial
    | ok busNumber =>
      refine ⟨hsilent _ trivial, fun r _ => ?_⟩
      cases r with
      | error => trivial
      | ok address =>
        exact ⟨hstore _ (fun _ => ⟨rfl, id⟩) (fun _ => rfl) (fun _ => rfl) (fun _ => .inl rfl)
          fun _ => ⟨⟨rfl, rfl, rfl⟩, rfl, rfl⟩, fun _ _ => trivial⟩

theorem readPciIdentity_only (h : IdentityScope K) : readPciIdentity.Only K := by
  obtain ⟨identify, heq, honly⟩ := readPciIdentity_split
  rw [heq]
  refine (queryBusInterface_only h).bind fun status => honly h.silent (fun f hf hh hr ht hreport => ?_) status
  exact h.store f hf (fun c => congrArg Holdings.ptr (hh c)) hr ht hreport

/-- The memory resources are recorded in order, as many as fit. -/
theorem recordBars_only (h : IdentityScope K) (ds : List ResourceDesc) : (recordBars ds).Only K := by
  induction ds with
  | nil => trivial
  | cons d ds ih =>
    refine Within.ite (fun _ => ih) fun _ => ⟨h.silent _ trivial, fun c _ => Within.ite (fun _ => trivial) fun _ => ?_⟩
    exact ⟨h.store _ (fun _ => ⟨rfl, id⟩) (fun _ => rfl) (fun _ => rfl) (fun _ => .inl rfl)
    fun _ => ⟨⟨rfl, rfl, rfl⟩, rfl, rfl⟩, fun _ _ => ih⟩

/-- The tiers are tried in order, and each outcome recorded. -/
theorem allocateTiers_only (h : HardwareScope K) (node : Option UInt32) (sizes : List UInt64)
    (i : Nat) : (allocateTiers node i sizes).Only K := by
  induction sizes generalizing i with
  | nil => trivial
  | cons size sizes ih =>
    refine ⟨h.allocContiguous _ _ _, fun va _ => ⟨?_, fun _ _ => Within.ite (fun _ => ?_) fun _ => ⟨?_, fun _ _ => ih _⟩⟩⟩
    · exact h.store _ (fun _ => ⟨rfl, id⟩) (fun _ => rfl) (fun _ => rfl) fun _ => .inl rfl
    · exact (within_perform _).mpr
        (h.store _ (fun _ => ⟨rfl, id⟩) (fun _ => rfl) (fun _ => rfl) fun _ => .inl rfl)
    · exact h.store _ (fun _ => ⟨rfl, id⟩) (fun _ => rfl) (fun _ => rfl) fun _ => .inl rfl

/-- The buffer is allocated and zeroed. -/
theorem sysmemAllocate_only (h : HardwareScope K) : sysmemAllocate.Only K := by
  refine ⟨h.silent _ trivial, fun node _ => (allocateTiers_only h _ _ _).bind fun _ =>
    ⟨h.silent _ trivial, fun c _ => ?_⟩⟩
  refine Within.ite (fun _ => (within_perform _).mpr ?_) fun _ => ?_
  · exact h.store _ (fun _ => ⟨rfl, id⟩) (fun _ => rfl) (fun _ => rfl) fun _ => .inl rfl
  · refine ⟨h.silent _ trivial, fun phys _ => ⟨?_, fun _ _ => (within_perform _).mpr (h.bufferZero _)⟩⟩
    exact h.store _ (fun _ => ⟨rfl, id⟩) (fun _ => rfl) (fun _ => rfl) fun _ => .inl rfl

/-- The buffer is freed, if there is one. -/
theorem sysmemFree_only (h : HardwareScope K) (hf : ∀ va size, K (.freeContiguous va size)) :
    sysmemFree.Only K := by
  have hfree : freeBuffer.Only K := by
    refine ⟨h.silent _ trivial, fun c _ => Within.ite (fun _ => ⟨hf _ _, fun _ _ => ?_⟩)
      fun _ => trivial⟩
    exact (within_perform _).mpr (h.store _ (fun _ => ⟨rfl, id⟩) (fun _ => rfl) (fun _ => rfl) fun _ => .inl rfl)
  exact hfree.bind fun _ => (within_perform _).mpr
    (h.store _ (fun _ => ⟨rfl, nofun⟩) (fun _ => rfl) (fun _ => rfl) fun _ => .inr (.inl rfl))

theorem releaseBusInterface_only (h : IdentityScope K) : releaseBusInterface.Only K := by
  refine ⟨h.silent _ trivial, fun c _ => Within.ite (fun _ => ⟨h.dereferenceInterface, fun _ _ => ?_⟩)
    fun _ => trivial⟩
  exact (within_perform _).mpr (h.store _ (fun _ => ⟨rfl, id⟩) (fun _ => rfl) (fun _ => rfl)
    (fun _ => .inl rfl) fun _ => ⟨⟨rfl, rfl, rfl⟩, rfl, rfl⟩)

end Hardware

/-- A block is mapped where its BAR covers it. -/
theorem mapOptional_within {K : Op → Prop} (hm : ∀ phys len, K (.mapIoSpace phys len)) (covered : Bool)
    (phys : UInt64) (len : Nat) {set : IoPtr → DeviceContext → DeviceContext}
    (hset : ∀ p, K (.store (set p))) : (mapOptional covered phys len set).Only K :=
  Within.ite (fun _ => ⟨hm _ _, fun p _ => (within_perform _).mpr (hset p)⟩) fun _ => trivial

/-- PrepareHardware, for a footprint that contains its parts. -/
theorem evtDevicePrepareHardware_within {K : Op → Prop} (h : HardwareScope K)
    (hs : ∀ f, HardwareFrame f → TileFrame f → K (.store f)) (hm : ∀ phys len, K (.mapIoSpace phys len))
    (hu : ∀ p len, K (.unmapIoSpace p len)) (resources : List ResourceDesc) :
    (evtDevicePrepareHardware resources).Only K := by
  refine (readPciIdentity_only h.identity).bind fun _ => Within.ite (fun _ => trivial) fun _ => ?_
  refine ⟨hs _ (fun _ => ⟨rfl, id⟩) fun _ => .inl rfl, fun _ _ => (recordBars_only h.identity _).bind fun _ => ?_⟩
  refine ⟨h.silent _ trivial, fun c _ => Within.ite (fun _ => trivial) fun _ => ⟨hm _ _, fun p _ => ?_⟩⟩
  refine ⟨hs _ (fun _ => ⟨rfl, id⟩) fun _ => .inl rfl, fun _ _ => Within.ite (fun _ => trivial) fun _ => ?_⟩
  refine ⟨hm _ _, fun q _ => ⟨hs _ (fun _ => ⟨rfl, id⟩) fun _ => .inl rfl, fun _ _ => ?_⟩⟩
  refine Within.ite (fun _ => ⟨hu _ _, fun _ _ => ⟨hs _ (fun _ => ⟨rfl, id⟩) fun _ => .inl rfl,
    fun _ _ => trivial⟩⟩) fun _ => ?_
  refine Within.bind (mapOptional_within hm _ _ _ fun _ => hs _ (fun _ => ⟨rfl, id⟩) fun _ => .inl rfl) fun _ => ?_
  refine Within.bind (mapOptional_within hm _ _ _ fun _ => hs _ (fun _ => ⟨rfl, id⟩) fun _ => .inl rfl) fun _ => ?_
  refine Within.bind (mapOptional_within hm _ _ _ fun _ => hs _ (fun _ => ⟨rfl, id⟩) fun _ => .inl rfl) fun _ => ?_
  exact (sysmemAllocate_only h).bind fun _ => trivial

/-- PrepareHardware as a whole. -/
theorem evtDevicePrepareHardware_only (resources : List ResourceDesc) :
    (evtDevicePrepareHardware resources).Only prepareFoot :=
  evtDevicePrepareHardware_within hardwareScope_prepareFoot (fun _ hf _ => hf) (fun _ _ => trivial)
    (fun _ _ => trivial) resources

/-- A block is unmapped, if it is mapped, and its pointer cleared. -/
theorem releasePtr_only {K : Op → Prop} (hl : K .load) (hu : ∀ p len, K (.unmapIoSpace p len))
    (get : DeviceContext → IoPtr) {clear : DeviceContext → DeviceContext} (hc : K (.store clear))
    (len : Nat) : (releasePtr get clear len).Only K :=
  ⟨hl, fun _ _ => Within.ite (fun _ => ⟨hu _ _, fun _ _ => (within_perform _).mpr hc⟩)
    fun _ => trivial⟩

/-- Revocation takes the whole list and destroys it. -/
theorem revokeAllMappings_only : revokeAllMappings.Only hardwareFoot :=
  ⟨rfl, fun _ _ => destroyAll_only hardwareFoot_teardown _⟩

/-- A store that forgets pointers, if it changes any. -/
def ClearsPtr (f : DeviceContext → DeviceContext) : Prop :=
  ∀ c b, (f c).ptr b = c.ptr b ∨ (f c).ptr b = none

/-- ReleaseHardware after the revocation, for a footprint that contains its parts. -/
theorem releaseResources_only {K : Op → Prop} (h : HardwareScope K)
    (hs : ∀ f, HardwareFrame f → ClearsPtr f → TileFrame f → K (.store f)) (ha : ∀ l, K (.acquire l))
    (hr : ∀ l, K (.release l)) (hu : ∀ p len, K (.unmapIoSpace p len))
    (hf : ∀ va size, K (.freeContiguous va size)) : releaseResources.Only K := by
  have hptr : ∀ get clear len, HardwareFrame clear → ClearsPtr clear → TileFrame clear →
      (releasePtr get clear len).Only K :=
    fun get _ len hc hp ht => releasePtr_only (h.silent _ trivial) hu get (hs _ hc hp ht) len
  refine Within.perform_bind (ha _) fun _ _ => ?_
  refine Within.bind (hptr _ _ _ (fun _ => ⟨rfl, id⟩) (fun _ b => ?_) fun _ => .inl rfl) fun _ => ?_
  · cases b <;> first | exact .inl rfl | exact .inr rfl
  refine Within.bind (hptr _ _ _ (fun _ => ⟨rfl, id⟩) (fun _ b => ?_) fun _ => .inl rfl) fun _ => ?_
  · cases b <;> first | exact .inl rfl | exact .inr rfl
  refine Within.bind (hptr _ _ _ (fun _ => ⟨rfl, id⟩) (fun _ b => ?_) fun _ => .inl rfl) fun _ => ?_
  · cases b <;> first | exact .inl rfl | exact .inr rfl
  refine Within.bind (hptr _ _ _ (fun _ => ⟨rfl, id⟩) (fun _ b => ?_) fun _ => .inl rfl) fun _ => ?_
  · cases b <;> first | exact .inl rfl | exact .inr rfl
  refine Within.perform_bind (hs _ (fun _ => ⟨rfl, nofun⟩) (fun _ b => ?_) fun _ => .inl rfl) fun _ _ => ?_
  · cases b <;> exact .inl rfl
  refine Within.perform_bind (hr _) fun _ _ => (sysmemFree_only h hf).bind fun _ => ?_
  refine Within.perform_bind (ha _) fun _ _ => ?_
  refine Within.bind (hptr _ _ _ (fun _ => ⟨rfl, id⟩) (fun _ b => ?_) fun _ => .inl rfl) fun _ => ?_
  · cases b <;> first | exact .inl rfl | exact .inr rfl
  refine Within.perform_bind (hr _) fun _ _ => ?_
  refine (releaseBusInterface_only h.identity).bind fun _ => (within_perform _).mpr ?_
  refine hs _ (fun _ => ⟨rfl, id⟩) (fun _ b => ?_) fun _ => .inl rfl
  cases b <;> exact .inl rfl

theorem evtDeviceReleaseHardware_only : evtDeviceReleaseHardware.Only hardwareFoot :=
  revokeAllMappings_only.bind fun _ => releaseResources_only hardwareScope_hardwareFoot
    (fun _ hf _ _ => hf) (fun _ => trivial) (fun _ => trivial) (fun _ _ => trivial) fun _ _ => trivial

/-- What the cleanup of a handle may do. -/
def cleanupFoot (fo : FileObject) : Op → Prop
  | .locked s => s = .sweepFile fo
  | .attach _ | .detach _ | .unmapView _ | .unmapLockedPages _ _ | .dereferenceProcess _
  | .freePool _ => True
  | o => o.plain

/-- Cleanup takes the list and the windows of its own handle. -/
theorem evtFileCleanup_only (fo : FileObject) : (evtFileCleanup fo).Only (cleanupFoot fo) :=
  ⟨rfl, fun _ _ => destroyAll_only ⟨trivial, fun _ => trivial, fun _ => trivial, fun _ => trivial,
    fun _ => trivial, fun _ _ => trivial, fun _ => trivial, fun _ => trivial, fun _ => trivial⟩ _⟩

/-- What the creation of a handle may do. -/
def createFoot : Op → Prop
  | .setFileGen _ _ => True
  | o => o.plain

/-- A handle is stamped with the generation at its creation. -/
theorem evtDeviceFileCreate_only (fo : FileObject) : (evtDeviceFileCreate fo).Only createFoot :=
  ⟨trivial, fun _ _ => ⟨trivial, fun _ _ => (within_perform _).mpr trivial⟩⟩

/-! ## Every call -/

/-- Operations that change the tables of the mappings and windows, or the generation, only
by a section under StateLock. -/
def Op.KeepsTables : Op → Prop
  | .store f => TableFrame f
  | _ => True

/-- Outside their sections, none of these footprints stores in the tables. -/
theorem deviceFoot_keepsTables {l : Lock} {o : Op} (h : deviceFoot l o) : o.KeepsTables := by
  cases o with
  | store f => exact ArcFrame.table h
  | _ => trivial

theorem handleFoot_keepsTables {fileObject : Option FileObject} {o : Op}
    (h : handleFoot fileObject o) : o.KeepsTables := by
  cases o with
  | store f => exact (h : False).elim
  | _ => trivial

theorem resetFoot_keepsTables {G : Section → Prop} {o : Op} (h : resetFoot G o) :
    o.KeepsTables := by
  cases o with
  | store f => exact ResetFrame.table h
  | _ => trivial

theorem hardwareFoot_keepsTables {o : Op} (h : hardwareFoot o) : o.KeepsTables := by
  cases o with
  | store f => exact HardwareFrame.table h
  | _ => trivial

/-- What every call but those of the hardware may do, in a footprint that contains its parts. -/
theorem begins_foot {K : Op → Prop} {L : Tid → Prop} {t : Tid} {p : Drv Unit} {w w' : World}
    (hdevice : ∀ l o, deviceFoot l o → K o) (hhandle : ∀ fileObject o, handleFoot fileObject o → K o)
    (hreset : ∀ o, resetFoot (fun _ => True) o → K o) (hcleanup : ∀ fo o, cleanupFoot fo o → K o)
    (hcreate : ∀ o, createFoot o → K o) (h : Begins L t p w w') (ht : t ≠ .hardware) : p.Only K := by
  have hplain : ∀ o : Op, o.plain → K o := fun o ho => hdevice .arc o (deviceFoot_of_plain ho)
  cases h with
  | ioctl r code =>
    refine evtIoDeviceControl_only hplain _ code ?_
    by_cases hcode : code = .resetDevice
    · subst hcode
      exact ((resetDevice_only trivial trivial _).mono hreset).bind fun _ => trivial
    · exact ioctlHandler_within (hhandle _) (hdevice _) (fun _ => recoverReset_resetFoot.mono hreset) hcode
        fun _ => hdevice _
  | power cb => exact (power_only cb).mono fun o ho => hdevice _ o (arcFoot_of_powerFoot ho)
  | prepare | release => exact absurd rfl ht
  | create fo => exact (evtDeviceFileCreate_only fo).mono hcreate
  | cleanup fo => exact (evtFileCleanup_only fo).mono (hcleanup fo)

/-- Every call that may begin. -/
theorem begins_keepsTables {L : Tid → Prop} {t : Tid} {p : Drv Unit} {w w' : World}
    (h : Begins L t p w w') : p.Only Op.KeepsTables := by
  by_cases ht : t = .hardware
  · subst ht
    cases h with
    | prepare resources =>
      have hprepare := evtDevicePrepareHardware_only resources
      refine (hprepare.mono fun _ ho => ?_).bind fun _ => trivial
      exact hardwareFoot_keepsTables (hardwareFoot_of_prepare ho)
    | release => exact evtDeviceReleaseHardware_only.mono fun _ => hardwareFoot_keepsTables
  · refine begins_foot (fun _ _ => deviceFoot_keepsTables) (fun _ _ => handleFoot_keepsTables)
      (fun _ => resetFoot_keepsTables) (fun fo o ho => ?_) (fun o ho => ?_) h ht
    all_goals
      cases o with
      | store f => exact (ho : False).elim
      | _ => trivial

end TtWind
