import TtWind.Effect.Locks
import TtWind.Laws.Programs
import TtWind.Laws.Schedule

/-!
# The driver's two locks

ArcLock comes before StateLock: the code under ArcLock enters sections under StateLock, and the code
under StateLock takes nothing. Every callback gives back what it takes, on all of its exits. So the
two locks are held by live threads alone, and whatever the callbacks and the requests are at, one of
them can go on.

Waiting never goes in a circle; that a thread which can go on does so is up to the scheduler, and not
claimed. Nothing is said of the framework's own locks, nor of how long a lock is held.
-/

set_option autoImplicit false

namespace TtWind

open TtWind.Effect TtWind.Effect.Prog TtWind.Effect.Locking

/-- What an operation does with the two locks. -/
def Op.lockUse : Op → LockUse Lock
  | .acquire l => .takes l
  | .release l => .gives l
  | .locked _ => .passes .state
  | _ => .spares

/-- The two locks. -/
def locking : Locking DriverSig Tid World Lock := ⟨Op.lockUse, World.holder⟩

/-- The order in which the locks are taken. -/
def Lock.rank : Lock → Nat
  | .arc => 0
  | .state => 1

instance : Preorder Lock := Preorder.lift Lock.rank

/-- There are two locks, and one comes first. -/
theorem Lock.lt_iff {l l' : Lock} : l < l' ↔ l = .arc ∧ l' = .state := by
  show l.rank < l'.rank ↔ _
  cases l <;> cases l' <;> simp [Lock.rank]

instance : WellFoundedGT Lock where
  wf := by
    refine Subrelation.wf (r := InvImage (· < ·) fun l : Lock => 1 - l.rank) ?_ (InvImage.wf _ Nat.lt_wfRel.wf)
    intro l l' h
    obtain ⟨rfl, rfl⟩ := Lock.lt_iff.mp (show l' < l from h)
    exact Nat.zero_lt_one

/-! ## The operations -/

/-- An operation moves the lock it takes or gives back, and no other. -/
theorem exec_turns {t : Tid} {o : Op} {e : Choice} {w w' : World} {x : o.Ans}
    (he : w.exec t o e = some (x, w')) : locking.Turns t o w.holder w'.holder := by
  have hf := World.exec_frame he
  have hkeeps : ¬ o.movesLock .arc → ¬ o.movesLock .state → w'.holder = w.holder := by
    intro harc hstate
    funext l
    cases l with
    | arc => exact hf.arcLock harc
    | state => exact hf.stateLock hstate
  cases o with
  | acquire l =>
    obtain ⟨w₁, hs, rfl⟩ := World.exec_step he
    simp only [World.step, Option.ite_none_right_eq_some, Option.some.injEq, Prod.mk.injEq] at hs
    obtain ⟨hfree, -, rfl⟩ := hs
    refine ⟨hfree, ?_⟩
    funext l'
    cases l <;> cases l' <;> rfl
  | release l =>
    obtain ⟨w₁, hs, rfl⟩ := World.exec_step he
    simp only [World.step, Option.ite_none_right_eq_some, Option.some.injEq, Prod.mk.injEq] at hs
    obtain ⟨-, -, rfl⟩ := hs
    show _ = Function.update _ _ _
    funext l'
    cases l <;> cases l' <;> rfl
  | _ => exact hkeeps id id

/-- What the environment can do makes an operation possible. -/
theorem exec_of_step {t : Tid} {o : Op} {e : Choice} {w w₁ : World} {x : o.Ans}
    (h : w.step t o e = some (x, w₁)) : ∃ e x w', w.exec t o e = some (x, w') := by
  refine ⟨e, x, w₁.record t ⟨o, x⟩, ?_⟩
  unfold World.exec
  rw [h]
  rfl

/-- Nothing but a lock stops a thread. -/
theorem exec_enabled {t : Tid} {o : Op} {w : World} (hfree : locking.Free o w.holder)
    (hdue : locking.Due t o w.holder) : ∃ e x w', w.exec t o e = some (x, w') := by
  cases o with
  | acquire l => exact exec_of_step (e := .unit) (if_pos hfree)
  | release l => exact exec_of_step (e := .unit) (if_pos hdue)
  | locked s => exact exec_of_step (e := .unit) (if_pos hfree)
  | mmioRead p off => exact exec_of_step (e := .word 0) rfl
  | getBusData off len =>
    have hstep : World.step t (.getBusData off len) (.bytes []) w = some ([], w) := by simp [World.step]
    exact exec_of_step hstep
  | setBusData off data =>
    have hstep : World.step t (.setBusData off data) (.count 0) w = some (0, w) := by simp [World.step]
    exact exec_of_step hstep
  | deadline ms => exact exec_of_step (e := .count 0) rfl
  | mapIoSpace phys len => exact exec_of_step (e := .fail .insufficientResources) rfl
  | allocContiguous size highest node => exact exec_of_step (e := .fail .insufficientResources) rfl
  | allocPool => exact exec_of_step (e := .fail .insufficientResources) rfl
  | mapLockedPages m wc addr => exact exec_of_step (e := .fail .insufficientResources) rfl
  | mapView offset size addr => exact exec_of_step (e := .fail .insufficientResources) rfl
  | queryProperty => exact exec_of_step (e := .word 0) rfl
  | unmapView base =>
    by_cases hview : w.views.any fun v => v.process == w.curProc t && v.va == base && !v.isDevice
    · exact exec_of_step (e := .unit) (if_pos hview)
    · exact exec_of_step (e := .unit) (if_neg hview)
  | _ => exact exec_of_step (e := .unit) rfl

/-- The locks of the driver are locks: what a thread holds is what it took and has not given back. -/
theorem locking_lawful : locking.Lawful driver where
  initial hw l := by
    obtain ⟨buffer, rfl⟩ := hw
    cases l <;> rfl
  exec := exec_turns
  enabled := exec_enabled
  begins hb := by
    funext l
    cases hb <;> cases l <;> rfl
  ends {t w w'} he := by
    obtain rfl : w' = w.leave t := he
    funext l
    cases t <;> cases l <;> rfl
  env he := by
    funext l
    cases he <;> cases l <;> rfl

/-! ## The programs -/

/-- Operations that take no lock and give none back. -/
def Op.SparesLocks : Op → Prop
  | .acquire _ | .release _ => False
  | _ => True

/-- Operations that do not pass StateLock either. -/
def Op.SparesState : Op → Prop
  | .locked _ => False
  | o => o.SparesLocks

section Programs

variable {α β : Type}

/-- Plain operations leave both locks. -/
theorem sparesLocks_of_plain {o : Op} (h : o.plain) : o.SparesLocks := by
  cases o <;> trivial

theorem sparesLocks_of_silent {o : Op} (h : o.silent) : o.SparesLocks := sparesLocks_of_plain h.plain

/-- Below StateLock nothing that spares the locks is out of order. -/
theorem carries_of_sparesLocks {held : Set Lock} (hbelow : ∀ l ∈ held, l < .state) {p : Drv α}
    (hp : p.Only Op.SparesLocks) : locking.Carries p held held := by
  apply carries_of_only hp
  · intro o ho
    cases o with
    | acquire => exact ho.elim
    | release => exact ho.elim
    | locked => exact hbelow
    | _ => trivial
  · intro o x ho
    cases o with
    | acquire => exact ho.elim
    | release => exact ho.elim
    | _ => rfl

/-- Code that leaves StateLock runs under either lock and keeps it. -/
theorem carries_of_sparesState {held : Set Lock} {p : Drv α} (hp : p.Only Op.SparesState) :
    locking.Carries p held held := by
  apply carries_of_only hp
  · intro o ho
    cases o with
    | acquire => exact ho.elim
    | release => exact ho.elim
    | locked => exact ho.elim
    | _ => trivial
  · intro o x ho
    cases o with
    | acquire => exact ho.elim
    | release => exact ho.elim
    | locked => exact ho.elim
    | _ => rfl

/-- With no lock held, everything that spares the locks is in order. -/
theorem ordered_of_only {p : Drv α} (hp : p.Only Op.SparesLocks) : locking.Ordered p :=
  carries_of_sparesLocks (fun _ h => h.elim) hp

theorem spares_op {o : Op} (ho : o.SparesLocks) : (op o).Only Op.SparesLocks := (within_perform _).mpr ho

/-- The code under ArcLock. -/
theorem arc_of_only {p : Drv α} (hp : p.Only Op.SparesLocks) : locking.Carries p {.arc} {.arc} := by
  apply carries_of_sparesLocks _ hp
  intro l hl
  obtain rfl := Set.mem_singleton_iff.mp hl
  exact Lock.lt_iff.mpr ⟨rfl, rfl⟩

/-- A lock is taken, and given back behind it. -/
theorem ordered_acquire {l : Lock} {k : Unit → Drv α} (hk : locking.Carries (k ()) {l} ∅) :
    locking.Ordered (acquire l >>= k) := by
  refine carries_takes (K := locking) (o := .acquire l) rfl (fun _ h => h.elim) fun _ => ?_
  rw [insert_empty_eq]
  exact hk

/-- A lock is given back, and what follows takes its own. -/
theorem carries_release {l : Lock} {k : Unit → Drv α} (hk : locking.Ordered (k ())) :
    locking.Carries (release l >>= k) {l} ∅ := by
  refine carries_gives (K := locking) (o := .release l) rfl rfl fun _ => ?_
  rw [Set.sdiff_self]
  exact hk

/-- Both branches hold the same in the end. -/
theorem carries_ite {held held' : Set Lock} {c : Prop} [Decidable c] {p q : Drv α}
    (hp : locking.Carries p held held') (hq : locking.Carries q held held') :
    locking.Carries (if c then p else q) held held' :=
  Follows.ite (fun _ => hp) fun _ => hq

/-! ### The code under ArcLock -/

/-- The code under ArcLock leaves both locks. -/
theorem arcScope_sparesLocks : ArcScope (fun _ _ => True) Op.SparesLocks :=
  arcScope_of (fun _ => sparesLocks_of_silent) (fun _ _ => trivial) fun _ _ => ⟨trivial, fun _ => trivial⟩

theorem mailScope_sparesLocks : MailScope (fun _ _ => True) Op.SparesLocks := arcScope_sparesLocks.toMailScope

/-- An exchange holds ArcLock throughout and gives it back. -/
theorem arcMsgSendSync_ordered (msg : ArcMsg) : locking.Ordered (arcMsgSendSync msg) := by
  apply ordered_acquire
  refine (arc_of_only (arcSendLocked_within mailScope_sparesLocks msg)).bind fun _ => ?_
  exact carries_release (carries_pure _)

theorem arcSendChecked_ordered (header : UInt32) : locking.Ordered (arcSendChecked header) := by
  refine (arcMsgSendSync_ordered _).bind fun r => ?_
  cases r with
  | error => exact carries_pure _
  | ok => exact carries_ite (carries_pure _) (carries_pure _)

/-- The power-up message is such an exchange. -/
theorem arcPowerUp_ordered : locking.Ordered arcPowerUp :=
  (arcSendChecked_ordered _).bind fun _ => carries_ite (carries_pure _) (arcSendChecked_ordered _)

/-- The arm holds ArcLock throughout and gives it back, at every stage it can stop in. -/
theorem sysmemArm_ordered : locking.Ordered sysmemArm := by
  apply ordered_acquire
  have harm : armLocked.Only Op.SparesLocks :=
    armLocked_within arcScope_sparesLocks (fun _ _ => trivial) fun _ _ => trivial
  exact (arc_of_only harm).bind fun _ => carries_release (carries_pure _)

/-- Each power callback takes ArcLock for one exchange after the other. -/
theorem power_ordered (cb : PowerCallback) : locking.Ordered cb.code := by
  have hinit : locking.Ordered evtDeviceSelfManagedIoInit :=
    arcPowerUp_ordered.bind fun _ => sysmemArm_ordered.bind fun _ => carries_pure _
  cases cb with
  | init => exact hinit
  | restart => exact hinit
  | suspend =>
    have hinvalidate : locking.Ordered sysmemInvalidate := by
      apply ordered_acquire
      refine (arc_of_only (spares_op (o := .store _) trivial)).bind fun _ => ?_
      exact carries_release (k := fun a => Pure.pure a) (carries_pure _)
    refine hinvalidate.bind fun _ => (arcSendChecked_ordered _).bind fun _ => ?_
    exact (arcSendChecked_ordered _).bind fun _ => carries_pure _

theorem powerUpRetry_ordered (tries : Nat) : locking.Ordered (powerUpRetry tries) := by
  induction tries with
  | zero => exact carries_pure _
  | succ tries ih =>
    refine arcPowerUp_ordered.bind fun _ => carries_ite (carries_pure _) (carries_ite (carries_pure _) ?_)
    exact (ordered_of_only (spares_op (o := .stall _) trivial)).bind fun _ => ih

/-! ### The handlers -/

theorem ordered_step {o : Op} {k : o.Ans → Drv α} (ho : o.SparesLocks) (hk : ∀ x, locking.Ordered (k x)) :
    locking.Ordered (.vis o k) :=
  (ordered_of_only (spares_op ho)).bind hk

theorem teardownScope_sparesLocks : TeardownScope Op.SparesLocks :=
  ⟨trivial, fun _ => trivial, fun _ => trivial, fun _ => trivial, fun _ => trivial, fun _ _ => trivial,
    fun _ => trivial, fun _ => trivial, fun _ => trivial⟩

/-- Making a mapping enters sections, which take StateLock for themselves. -/
theorem mappingScope_sparesLocks (fileObject : Option FileObject) : MappingScope fileObject Op.SparesLocks where
  toTeardownScope := teardownScope_sparesLocks
  silent _ := sparesLocks_of_silent
  allocPool := trivial
  referenceProcess _ := trivial
  mapLockedPages _ _ _ := trivial
  mapView _ _ _ := trivial
  insertMapping _ _ := trivial

theorem windowScope_sparesLocks (fileObject : Option FileObject) : WindowScope fileObject Op.SparesLocks :=
  ⟨fun _ => sparesLocks_of_plain, fun _ _ => trivial, fun _ _ _ => trivial⟩

/-- The message is checked before ArcLock is taken. -/
theorem ioctlSmcMsg_ordered : locking.Ordered ioctlSmcMsg := by
  refine ordered_step trivial fun _ => carries_ite (carries_pure _) ?_
  refine ordered_step trivial fun _ => carries_ite (carries_pure _) ?_
  have hwords : (inWords 0 8).Only Op.SparesLocks := inWords_only (fun _ _ => trivial) _ _
  refine (ordered_of_only hwords).bind fun _ => (arcMsgSendSync_ordered _).bind fun r => ?_
  cases r with
  | error => exact carries_pure _
  | ok msg =>
    have hout : (outWords 0 msg.words).Only Op.SparesLocks := outWords_only (fun _ _ _ => trivial) _ _
    exact ordered_step trivial fun _ => (ordered_of_only hout).bind fun _ => carries_pure _

theorem ioctlArcStatus_ordered : locking.Ordered ioctlArcStatus := by
  refine ordered_step trivial fun _ => carries_ite (carries_pure _) ?_
  apply ordered_acquire
  refine (arc_of_only (arcStatusLocked_within mailScope_sparesLocks)).bind fun r => ?_
  obtain ⟨stage, status, report⟩ := r
  apply carries_release
  have hout : ∀ words, (outWords 0 words).Only Op.SparesLocks := fun _ => outWords_only (fun _ _ _ => trivial) _ _
  exact (ordered_of_only (hout _)).bind fun _ => carries_pure _

/-- The reply is written under ArcLock. -/
theorem ioctlQuerySysmem_ordered : locking.Ordered ioctlQuerySysmem := by
  refine ordered_step trivial fun _ => carries_ite (carries_pure _) ?_
  refine ordered_step trivial fun _ => ?_
  apply ordered_acquire
  refine (arc_of_only (spares_op (o := .load) trivial)).bind fun c => ?_
  refine (arc_of_only (outSysmem_within (fun _ _ _ => trivial) c)).bind fun _ => ?_
  exact carries_release (carries_pure _)

theorem ioctlSysmemStatus_ordered : locking.Ordered ioctlSysmemStatus := by
  refine ordered_step trivial fun _ => carries_ite (carries_pure _) ?_
  refine ordered_step trivial fun _ => ?_
  apply ordered_acquire
  have hlocked : sysmemStatusLocked.Only Op.SparesLocks :=
    sysmemStatusLocked_within trivial (fun _ _ _ _ => trivial) fun _ _ _ => trivial
  exact (arc_of_only hlocked).bind fun _ => carries_release (carries_pure _)

/-- MAP_SYSMEM takes ArcLock to look at the verified flag, and gives it back at once. -/
theorem ioctlMapSysmem_ordered (fileObject : Option FileObject) : locking.Ordered (ioctlMapSysmem fileObject) := by
  cases fileObject with
  | none => exact carries_pure _
  | some fo =>
    have hscope := (mappingScope_sparesLocks (some fo)).toMakingScope
    refine ordered_step trivial fun _ => carries_ite (carries_pure _) ?_
    refine ordered_step trivial fun _ => carries_ite (carries_pure _) ?_
    refine ordered_step trivial fun _ => ordered_step trivial fun _ => carries_ite (carries_pure _) ?_
    apply ordered_acquire
    refine (arc_of_only (spares_op (o := .load) trivial)).bind fun c => ?_
    -- the lock is given up before the mapping is made
    apply carries_release
    refine carries_ite (carries_pure _) ?_
    refine ordered_step trivial fun c => carries_ite (carries_pure _) ?_
    refine (ordered_of_only (mappingProcess_only hscope.viewing)).bind fun process => ?_
    refine ordered_step trivial fun addr => ?_
    cases addr with
    | none => exact carries_pure _
    | some addr =>
      refine ordered_step trivial fun _ => ordered_step trivial fun c => ?_
      refine (ordered_of_only (mapSysmemToUser_only hscope.viewing (fun _ _ _ => trivial) _ _ _ _)).bind fun r => ?_
      cases r with
      | error => exact ordered_step trivial fun _ => ordered_step trivial fun _ => carries_pure _
      | ok r =>
        refine ordered_step trivial fun _ => ordered_step trivial fun _ => ordered_step trivial fun _ => ?_
        exact ordered_step trivial fun _ => ordered_step trivial fun _ => carries_pure _

/-- RESET_DEVICE enters its sections under StateLock while it holds ArcLock. -/
theorem ioctlResetDevice_ordered (fileObject : Option FileObject) : locking.Ordered (ioctlResetDevice fileObject) := by
  refine ordered_step trivial fun _ => carries_ite (carries_pure _) ?_
  refine ordered_step trivial fun _ => ordered_step trivial fun _ => carries_ite (carries_pure _) ?_
  refine ordered_step trivial fun _ => carries_ite (carries_pure _) ?_
  refine ordered_step (o := .locked .anyMapping) trivial fun _ => carries_ite (carries_pure _) ?_
  apply ordered_acquire
  have harm : (armReset fileObject).Only Op.SparesLocks :=
    armReset_within (fun _ => sparesLocks_of_silent) (fun _ _ => trivial) (fun _ _ => trivial) trivial
      (fun _ _ _ _ => trivial) fileObject
  exact (arc_of_only harm).bind fun _ => carries_release (carries_pure _)

/-- POST_RESET takes ArcLock for the recovery, and again for each retry and for the arm. -/
theorem ioctlPostReset_ordered : locking.Ordered ioctlPostReset := by
  refine ordered_step trivial fun _ => carries_ite (carries_pure _) ?_
  refine ordered_step trivial fun _ => ordered_step trivial fun _ => carries_ite (carries_pure _) ?_
  refine ordered_step trivial fun _ => carries_ite (carries_pure _) ?_
  apply ordered_acquire
  have hrecover : recoverReset.Only Op.SparesLocks :=
    recoverReset_within ⟨fun _ => sparesLocks_of_silent, fun _ _ _ => trivial⟩ (fun _ => trivial) trivial
      fun _ _ => ⟨trivial, fun _ => trivial⟩
  refine (arc_of_only hrecover).bind fun r => ?_
  obtain ⟨status, recovered⟩ := r
  apply carries_release
  refine carries_ite (carries_pure _) ?_
  exact (powerUpRetry_ordered _).bind fun _ => sysmemArm_ordered.bind fun _ => carries_pure _

/-- CONFIGURE_TLB holds StateLock, and passes neither lock while it does. -/
theorem ioctlConfigureTlb_ordered (fileObject : Option FileObject) :
    locking.Ordered (ioctlConfigureTlb fileObject) := by
  cases fileObject with
  | none => exact carries_pure _
  | some fo =>
    refine ordered_step trivial fun _ => carries_ite (carries_pure _) ?_
    refine ordered_step trivial fun _ => ordered_step trivial fun _ => ordered_step trivial fun _ => ?_
    refine carries_ite (carries_pure _) ?_
    have hconfig : (inTlbConfig 8).Only Op.SparesLocks := inTlbConfig_only (fun _ _ => trivial) _
    refine (ordered_of_only hconfig).bind fun cfg => ?_
    refine carries_ite (carries_pure _) (carries_ite (carries_pure _) ?_)
    refine ordered_step trivial fun tlbId => ?_
    apply ordered_acquire
    have hlocked : (configureLocked fo (UInt32.ofNat tlbId).toNat cfg).Only Op.SparesState :=
      configureLocked_within trivial (fun _ _ _ _ _ => trivial) _ _ _
    exact (carries_of_sparesState hlocked).bind fun _ => carries_release (carries_pure _)

/-- Every handler is ordered. -/
theorem ioctlHandler_ordered (fileObject : Option FileObject) (code : Ioctl) :
    locking.Ordered (ioctlHandler fileObject code) := by
  have hplain : ∀ o : Op, o.plain → o.SparesLocks := fun _ => sparesLocks_of_plain
  cases code with
  | getDeviceInfo => exact ordered_of_only (getDeviceInfo_only hplain)
  | mapBar => exact ordered_of_only (ioctlMapBar_within hplain (mappingScope_sparesLocks _))
  | unmapBar =>
    have hunmap : (ioctlUnmapBar fileObject).Only Op.SparesLocks :=
      ioctlUnmapBar_within hplain teardownScope_sparesLocks fun _ _ _ => trivial
    exact (ordered_of_only hunmap).bind fun _ => carries_pure _
  | allocateTlb => exact ordered_of_only (ioctlAllocateTlb_only (windowScope_sparesLocks _))
  | freeTlb => exact (ordered_of_only (ioctlFreeTlb_only (windowScope_sparesLocks _))).bind fun _ => carries_pure _
  | configureTlb => exact (ioctlConfigureTlb_ordered _).bind fun _ => carries_pure _
  | mapTlb =>
    exact ordered_of_only (ioctlMapTlb_within hplain (mappingScope_sparesLocks _) fun _ _ _ => trivial)
  | smcMsg => exact ioctlSmcMsg_ordered
  | resetDevice => exact (ioctlResetDevice_ordered _).bind fun _ => carries_pure _
  | arcStatus => exact ioctlArcStatus_ordered
  | postReset => exact ioctlPostReset_ordered.bind fun _ => carries_pure _
  | querySysmem => exact ioctlQuerySysmem_ordered
  | mapSysmem => exact ioctlMapSysmem_ordered _
  | sysmemStatus => exact ioctlSysmemStatus_ordered
  | other => exact carries_pure _

/-- The gate before the handlers takes no lock. -/
theorem evtIoDeviceControl_ordered (fileObject : Option FileObject) (code : Ioctl) :
    locking.Ordered (evtIoDeviceControl fileObject code) := by
  have hcomplete : ∀ s n, locking.Ordered (op (.complete s n)) := fun _ _ => ordered_of_only (spares_op trivial)
  have hstale : (isStale fileObject).Only Op.SparesLocks := isStale_only trivial (fun _ => trivial) _
  refine (ordered_of_only hstale).bind fun _ => carries_ite (hcomplete _ _) ?_
  refine ordered_step trivial fun _ => carries_ite (hcomplete _ _) ?_
  refine (ioctlHandler_ordered fileObject code).bind fun r => ?_
  obtain ⟨status, written⟩ := r
  exact hcomplete _ _

/-! ### The hardware callbacks -/

theorem releasePtr_sparesState (get : DeviceContext → IoPtr) (clear : DeviceContext → DeviceContext) (len : Nat) :
    (releasePtr get clear len).Only Op.SparesState :=
  releasePtr_only trivial (fun _ _ => trivial) get trivial len

/-- ReleaseHardware holds the locks one after the other, never both. -/
theorem releaseResources_ordered : locking.Ordered releaseResources := by
  have hrelease : ∀ {l} get clear len, locking.Carries (releasePtr get clear len) {l} {l} :=
    fun get clear len => carries_of_sparesState (releasePtr_sparesState get clear len)
  have hidentity : IdentityScope Op.SparesLocks :=
    ⟨fun _ => sparesLocks_of_silent, fun _ _ _ _ _ _ => trivial, trivial, trivial⟩
  have hscope : HardwareScope Op.SparesLocks :=
    ⟨fun _ => sparesLocks_of_silent, fun _ _ _ _ _ => trivial, trivial, trivial, fun _ _ _ => trivial, fun _ => trivial⟩
  apply ordered_acquire
  refine (hrelease _ _ _).bind fun _ => (hrelease _ _ _).bind fun _ => ?_
  refine (hrelease _ _ _).bind fun _ => (hrelease _ _ _).bind fun _ => ?_
  refine (arc_of_only (spares_op (o := .store _) trivial)).bind fun _ => ?_
  apply carries_release
  refine (ordered_of_only (sysmemFree_only hscope fun _ _ => trivial)).bind fun _ => ?_
  apply ordered_acquire
  refine (hrelease _ _ _).bind fun _ => ?_
  apply carries_release
  refine (ordered_of_only (releaseBusInterface_only hidentity)).bind fun _ => ?_
  exact ordered_of_only (spares_op (o := .store _) trivial)

/-- PrepareHardware takes no lock but in the sections it enters. -/
theorem evtDevicePrepareHardware_ordered (resources : List ResourceDesc) :
    locking.Ordered (evtDevicePrepareHardware resources) :=
  ordered_of_only (evtDevicePrepareHardware_within
    ⟨fun _ => sparesLocks_of_silent, fun _ _ _ _ _ => trivial, trivial, trivial, fun _ _ _ => trivial, fun _ => trivial⟩
    (fun _ _ _ => trivial) (fun _ _ => trivial) (fun _ _ => trivial) resources)

/-- Every call takes the locks in order, and gives back what it takes. -/
theorem begins_ordered {live : Tid → Prop} {t : Tid} {p : Drv Unit} {w w' : World} (h : Begins live t p w w') :
    locking.Ordered p := by
  cases h with
  | ioctl r code => exact evtIoDeviceControl_ordered _ code
  | power cb => exact power_ordered cb
  | prepare resources => exact (evtDevicePrepareHardware_ordered resources).bind fun _ => carries_pure _
  | release =>
    refine ordered_step (o := .locked .sweepAll) trivial fun ms => ?_
    refine (ordered_of_only (destroyAll_only teardownScope_sparesLocks ms)).bind fun _ => releaseResources_ordered
  | create fo =>
    refine ordered_step trivial fun c => ordered_step trivial fun _ => ?_
    exact ordered_of_only (spares_op trivial)
  | cleanup fo =>
    refine ordered_step (o := .locked (.sweepFile fo)) trivial fun ms => ?_
    exact ordered_of_only (destroyAll_only teardownScope_sparesLocks ms)

end Programs

/-! ## Runs -/

/-- Two locks in order: only calls under way hold them, none takes ArcLock under a lock or anything
under StateLock, and whoever waits waits in the end for a call that can go on. -/
structure LocksInOrder (c : DriverConfig) : Prop where
  held : ∀ {l t}, c.world.holder l = some t → c.live t ∧ c.pool t ≠ some (.pure ())
  acquires : ∀ {t l k}, c.pool t = some (.vis (.acquire l) k) →
    ∀ l', c.world.holder l' = some t → l' = .arc ∧ l = .state
  enters : ∀ {t s k}, c.pool t = some (.vis (.locked s) k) → c.world.stateLock ≠ some t
  releases : ∀ {t l k}, c.pool t = some (.vis (.release l) k) → c.world.holder l = some t
  unblocked : ∀ {t}, c.live t →
    ∃ u, Relation.ReflTransGen (c.WaitsFor locking) t u ∧ c.live u ∧ c.CanStep driver u

/-- In every run the two locks are taken in order and given back, and there is no deadlock. -/
theorem locks_never_deadlock {c : DriverConfig} (h : Reach driver anyStep c) : LocksInOrder c := by
  obtain ⟨held, hk⟩ := h.tracked locking_lawful begins_ordered
  constructor
  · intro l t hl
    exact ⟨hk.live hl, fun hp => hk.done hp l hl⟩
  · intro t l k hp l' hl'
    exact Lock.lt_iff.mp (hk.above hp (.inl rfl) hl')
  · intro t s k hp hl
    have hstate : locking.holder c.world .state = some t := hl
    have habove : Lock.state < Lock.state := hk.above hp (.inr rfl) hstate
    exact absurd (Lock.lt_iff.mp habove).1 (by decide)
  · intro t l k hp
    exact hk.due hp
  · intro t ht
    exact hk.unblocks locking_lawful ht

/-- The firmware is told to power up while a message of handle 2 comes in. -/
def messageWaits : List Move :=
  cardArrives 0 ++ opens 2 2 ++ [.power .init 0, .ops .power (plainOps 2),
    .ioctl { fileObject := some 2, requestor := some 2, inLen := 32, outLen := 32 } .smcMsg 2,
    .ops .ioctl (plainOps 13)]

/-- The power thread has ArcLock, and the request's next operation takes it. -/
def waitsForPower (c : DriverConfig) : Bool :=
  match c.pool .ioctl with
  | some (.vis (.acquire .arc) _) => c.world.arcLock == some .power
  | _ => false

/-- A message waits for the power thread, which is in the middle of an exchange. -/
theorem exists_waiting : ∃ c, Reach driver anyStep c ∧ c.WaitsFor locking .ioctl .power := by
  have hplay : (DriverConfig.play (fun _ _ _ => true) messageWaits idle).any waitsForPower = true := by
    decide +kernel
  obtain ⟨c, hreach, hend⟩ := DriverConfig.exists_reach (DriverConfig.implies_anyStep _) hplay
  unfold waitsForPower at hend
  split at hend
  · rename_i k hpool
    have hheld : locking.holder c.world .arc = some .power := beq_iff_eq.mp hend
    exact ⟨c, hreach, ⟨_, k, .arc, hpool, .inl rfl, hheld⟩⟩
  · cases hend

/-- A request waits for ArcLock, which a power callback holds. -/
theorem locks_never_deadlock_contended :
    ∃ c, Reach driver anyStep c ∧ c.WaitsFor locking .ioctl .power ∧ LocksInOrder c := by
  obtain ⟨c, hreach, hwaits⟩ := exists_waiting
  exact ⟨c, hreach, hwaits, locks_never_deadlock hreach⟩

end TtWind
