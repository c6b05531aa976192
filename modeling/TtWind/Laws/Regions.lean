import TtWind.Effect.Rely
import TtWind.Laws.Frame
import TtWind.Laws.Programs

/-!
# Programs by their ArcLock regions

The code of the power callbacks and of the requests is the same few bodies under
ArcLock with little between them. A protocol over the driver's operations, on any
machine, therefore has to be shown only for those bodies: `ArcRegions` lists the ones
that both threads run, `RequestRegions` the ones of the dispatcher.
-/

set_option autoImplicit false

namespace TtWind

open TtWind.Effect TtWind.Effect.Prog TtWind.Effect.Protocol

variable {E W : Type} {M : Machine DriverSig Tid E W} {R : Protocol DriverSig Tid W}

/-- What a thread keeps: `U` outside ArcLock, `H` under it. -/
structure ArcRegions (M : Machine DriverSig Tid E W) (R : Protocol DriverSig Tid W) (t : Tid)
    (U H : W → Prop) : Prop where
  steady : R.Steady
  plain : ∀ {α : Type} {p : Drv α}, p.Only Op.plain → R.Keeps M t U p
  heldPlain : ∀ {α : Type} {p : Drv α}, p.Only Op.plain → R.Keeps M t H p
  acquire : R.Triple M t U (acquire .arc) fun _ => H
  release : R.Triple M t H (release .arc) fun _ => U
  mail : ∀ msg, R.Keeps M t H (arcSendLocked msg)
  arm : R.Keeps M t H armLocked
  unverify : R.Keeps M t H (store fun c => { c with sysmemVerified := false })

/-- What every program of a footprint keeps, inside ArcLock and outside, if the code under
ArcLock is within the footprint. -/
theorem ArcRegions.ofFoot {t : Tid} {P : W → Prop} {K : Op → Prop} (hR : R.Steady)
    (hK : ∀ o, arcFoot o → K o)
    (hkeeps : ∀ {α : Type} {p : Drv α}, p.Only K → R.Keeps M t P p) : ArcRegions M R t P P where
  steady := hR
  plain hp := hkeeps (hp.mono fun o ho => hK o (deviceFoot_of_plain ho))
  heldPlain hp := hkeeps (hp.mono fun o ho => hK o (deviceFoot_of_plain ho))
  acquire := hkeeps ((within_perform _).mpr (hK _ rfl))
  release := hkeeps ((within_perform _).mpr (hK _ rfl))
  mail msg := hkeeps ((arcSendLocked_within mailScope_arcFoot msg).mono hK)
  arm := hkeeps ((armLocked_within arcScope_arcFoot (fun _ _ => trivial) fun _ hf => hf).mono hK)
  unverify := hkeeps ((within_perform _).mpr (hK _ fun _ => rfl))

namespace ArcRegions

variable {t : Tid} {U H : W → Prop} {α β : Type} (h : ArcRegions M R t U H)

include h

theorem pure (a : α) : R.Keeps M t U (Pure.pure a : Drv α) := h.plain trivial

theorem perform {o : Op} (ho : o.plain) : R.Keeps M t U (op o) := h.plain ((within_perform _).mpr ho)

theorem bind {p : Drv α} {f : α → Drv β} (hp : R.Keeps M t U p) (hf : ∀ a, R.Keeps M t U (f a)) :
    R.Keeps M t U (p >>= f) := Keeps.bind h.steady hp hf

/-- A region, and what comes after it. -/
theorem region {p : Drv α} {f : α → Drv β} (hp : R.Keeps M t H p)
    (hf : ∀ a, R.Keeps M t U (f a)) :
    R.Keeps M t U (TtWind.acquire .arc >>= fun _ => p >>= fun a => TtWind.release .arc >>= fun _ => f a) := by
  refine Triple.bind h.steady h.acquire fun _ => Triple.bind h.steady hp fun a => ?_
  exact Triple.bind h.steady h.release fun _ => hf a

/-! ## The mailbox and the arm path -/

/-- An exchange is one region under ArcLock. -/
theorem arcMsgSendSync (msg : ArcMsg) : R.Keeps M t U (arcMsgSendSync msg) :=
  h.region (h.mail msg) fun _ => h.pure _

theorem arcSendChecked (header : UInt32) : R.Keeps M t U (arcSendChecked header) := by
  refine h.bind (h.arcMsgSendSync _) fun r => ?_
  cases r with
  | error => exact h.pure _
  | ok msg => exact Keeps.ite (h.pure _) (h.pure _)

/-- So are the power messages. -/
theorem arcPowerUp : R.Keeps M t U arcPowerUp :=
  h.bind (h.arcSendChecked _) fun _ => Keeps.ite (h.pure _) (h.arcSendChecked _)

theorem arcPowerDown : R.Keeps M t U arcPowerDown :=
  h.bind (h.arcSendChecked _) fun _ => h.bind (h.arcSendChecked _) fun _ => h.pure _

/-- So is the arm, and the invalidation. -/
theorem sysmemArm : R.Keeps M t U sysmemArm := h.region h.arm fun _ => h.pure _

theorem sysmemInvalidate : R.Keeps M t U sysmemInvalidate := by
  refine Triple.bind h.steady h.acquire fun _ => Triple.bind h.steady h.unverify fun _ => ?_
  exact h.release

/-- A power callback is regions one after the other. -/
theorem powerCallback (cb : PowerCallback) : R.Keeps M t U cb.code := by
  have hinit : R.Keeps M t U evtDeviceSelfManagedIoInit :=
    h.bind h.arcPowerUp fun _ => h.bind h.sysmemArm fun _ => h.pure _
  cases cb with
  | init => exact hinit
  | restart => exact hinit
  | suspend => exact h.bind h.sysmemInvalidate fun _ => h.arcPowerDown

theorem powerUpRetry (tries : Nat) : R.Keeps M t U (powerUpRetry tries) := by
  induction tries with
  | zero => exact h.pure _
  | succ tries ih =>
    refine h.bind h.arcPowerUp fun _ => Keeps.ite (h.pure _) (Keeps.ite (h.pure _) ?_)
    exact h.bind (h.perform trivial) fun _ => ih

/-! ## The two reset ioctls -/

/-- POST_RESET: the recovery, then the power-up and the arm. -/
theorem ioctlPostReset (hrecover : R.Keeps M t H recoverReset) :
    R.Keeps M t U ioctlPostReset := by
  refine h.bind (h.perform trivial) fun _ => Keeps.ite (h.pure _) ?_
  refine h.bind (h.plain ⟨trivial, fun _ _ => trivial⟩) fun flags => ?_
  refine h.bind (h.plain ⟨trivial, fun _ _ => trivial⟩) fun reserved => Keeps.ite (h.pure _) ?_
  refine h.bind (h.perform trivial) fun c => Keeps.ite (h.pure _) ?_
  refine h.region hrecover fun r => Keeps.ite (h.pure _) ?_
  exact h.bind (h.powerUpRetry _) fun _ => h.bind h.sysmemArm fun _ => h.pure _

/-- RESET_DEVICE: what its busy check has shown is known when it arms. -/
theorem ioctlResetDevice {fileObject : Option FileObject} {B HB : W → Prop}
    (hbusy : R.Triple M t U (locked .anyMapping) fun busy w => if busy then U w else B w)
    (hacquire : R.Triple M t B (TtWind.acquire .arc) fun _ => HB)
    (harm : R.Triple M t HB (armReset fileObject) fun _ => H) :
    R.Keeps M t U (ioctlResetDevice fileObject) := by
  refine h.bind (h.perform trivial) fun _ => Keeps.ite (h.pure _) ?_
  refine h.bind (h.plain ⟨trivial, fun _ _ => trivial⟩) fun flags => ?_
  refine h.bind (h.plain ⟨trivial, fun _ _ => trivial⟩) fun reserved => Keeps.ite (h.pure _) ?_
  refine h.bind (h.perform trivial) fun c => Keeps.ite (h.pure _) ?_
  refine Triple.bind h.steady hbusy fun busy => ?_
  cases busy with
  | true => exact h.pure _
  | false =>
    refine Triple.bind h.steady hacquire fun _ => Triple.bind h.steady harm fun _ => ?_
    exact Triple.bind h.steady h.release fun _ => h.pure _

end ArcRegions

/-- RESET_DEVICE under ArcLock, step by step: what holds once the config is saved, the
marker is set, the fence is passed, the handle is carried forward, the device is restricted
and the buffer is taken back; `Q` is what holds whenever it stops. -/
structure ArmOutline (M : Machine DriverSig Tid E W) (R : Protocol DriverSig Tid W)
    (fileObject : Option FileObject) (P S K F C N V Q : W → Prop) : Prop where
  steady : R.Steady
  stable : R.Stable .ioctl P ∧ R.Stable .ioctl S ∧ R.Stable .ioctl Q
  stops : ∀ w, P w ∨ S w → Q w
  present : R.Keeps M .ioctl P devicePresent
  save : R.Triple M .ioctl P saveConfigOnce fun status w => if status.ok then S w else Q w
  marker : R.Keeps M .ioctl S (cfgRead pciCfgCommand 2)
  mark : ∀ data, R.Triple M .ioctl S
    (cfgWrite pciCfgCommand (leBytes (word16 data ||| pciCmdParity).toNat 2))
    fun written w => if written then K w else Q w
  fence : R.Triple M .ioctl K (locked .fence) fun _ => F
  carry : R.Triple M .ioctl F (carryForward fileObject) fun _ => C
  restrict : R.Triple M .ioctl C (store fun c => { c with needsHwInit := true }) fun _ => N
  unverify : R.Triple M .ioctl N (store fun c => { c with sysmemVerified := false }) fun _ => V
  target : R.Keeps M .ioctl V (cfgWrite ifcTimerTargetOff (leBytes ifcTimerTarget.toNat 4))
  trigger : R.Triple M .ioctl V
    (cfgWrite ifcTimerControlOff (leBytes (ifcTimerEn ||| ifcForcePending).toNat 4)) fun _ => Q

/-- The arm of RESET_DEVICE, step by step: presence, save, marker, fence, stamp, restriction, trigger. -/
theorem ArmOutline.armReset {fileObject : Option FileObject} {P S K F C N V Q : W → Prop}
    (h : ArmOutline M R fileObject P S K F C N V Q) :
    R.Triple M .ioctl P (armReset fileObject) fun _ => Q := by
  have hQ : ∀ s : NtStatus, R.Triple M .ioctl Q (Pure.pure s) fun _ => Q :=
    fun _ => Keeps.pure h.stable.2.2
  refine Triple.bind (p := devicePresent) h.steady h.present fun _ => ?_
  refine Triple.ite (fun _ => Triple.pure h.stable.1 fun w hw => h.stops w (.inl hw)) fun _ => ?_
  refine Triple.bind (p := saveConfigOnce) h.steady h.save fun status => ?_
  cases hstatus : status.ok with
  | false => exact hQ _
  | true =>
    refine Triple.bind (p := cfgRead pciCfgCommand 2) h.steady h.marker fun ⟨data, full⟩ => ?_
    refine Triple.ite (fun _ => Triple.pure h.stable.2.1 fun w hw => h.stops w (.inr hw)) fun _ => ?_
    refine Triple.bind (p := cfgWrite pciCfgCommand _) h.steady (h.mark data) fun written => ?_
    cases written with
    | false => exact hQ _
    | true =>
      refine Triple.bind (p := locked .fence) h.steady h.fence fun _ => ?_
      refine Triple.bind (p := carryForward fileObject) h.steady h.carry fun _ => ?_
      refine Triple.bind (p := store _) h.steady h.restrict fun _ => ?_
      refine Triple.bind (p := store _) h.steady h.unverify fun _ => ?_
      refine Triple.bind (p := cfgWrite ifcTimerTargetOff _) h.steady h.target fun _ => ?_
      exact Triple.bind (p := cfgWrite ifcTimerControlOff _) h.steady h.trigger fun _ => hQ _

/-! ## The dispatcher -/

/-- What a request keeps: `S` before the generation fence, `U` past it, `C` while it
knows that no reset is in flight, `H` under ArcLock. -/
structure RequestRegions (M : Machine DriverSig Tid E W) (R : Protocol DriverSig Tid W)
    (fileObject : Option FileObject) (S U C H : W → Prop) : Prop
    extends ArcRegions M R .ioctl U H where
  rejected : R.Keeps M .ioctl S (op (.complete .deviceRemoved 0))
  fence : R.Triple M .ioctl S (isStale fileObject) fun stale w => if stale then S w else U w
  started : ∀ w, U w → S w
  opened : ∀ w, C w → U w
  clear : ∀ {α : Type} {k : DeviceContext → Drv α} {Q : α → W → Prop},
    (∀ c, c.needsHwInit = true → R.Triple M .ioctl U (k c) Q) →
    (∀ c, c.needsHwInit = false → R.Triple M .ioctl C (k c) Q) →
    R.Triple M .ioctl U (load >>= k) Q
  status : R.Keeps M .ioctl H arcStatusLocked
  sysmemStatus : R.Keeps M .ioctl H sysmemStatusLocked
  reset : R.Keeps M .ioctl U (ioctlResetDevice fileObject)
  recover : R.Keeps M .ioctl H recoverReset
  handle : ∀ {α : Type} {p : Drv α}, p.Only (handleFoot fileObject) →
    R.Triple M .ioctl C p fun _ => U
  configure : R.Triple M .ioctl C (ioctlConfigureTlb fileObject) fun _ => U

namespace RequestRegions

variable {fileObject : Option FileObject} {S U C H : W → Prop} {α : Type}
  (h : RequestRegions M R fileObject S U C H)

include h

/-- The handlers on the device: each is plain code around one region. -/
theorem ioctlSmcMsg : R.Keeps M .ioctl U ioctlSmcMsg := by
  refine h.bind (h.perform trivial) fun _ => Keeps.ite (h.pure _) ?_
  refine h.bind (h.perform trivial) fun _ => Keeps.ite (h.pure _) ?_
  refine h.bind (h.plain (inWords_only (fun _ _ => trivial) _ _)) fun words => ?_
  refine h.bind (h.arcMsgSendSync _) fun r => ?_
  cases r with
  | error => exact h.pure _
  | ok msg =>
    refine h.bind (h.perform trivial) fun _ => ?_
    exact h.bind (h.plain (outWords_only (fun _ _ _ => trivial) _ _)) fun _ => h.pure _

theorem ioctlArcStatus : R.Keeps M .ioctl U ioctlArcStatus := by
  refine h.bind (h.perform trivial) fun _ => Keeps.ite (h.pure _) (h.region h.status fun r => ?_)
  exact h.bind (h.plain (outWords_only (fun _ _ _ => trivial) _ _)) fun _ => h.pure _

theorem ioctlSysmemStatus : R.Keeps M .ioctl U ioctlSysmemStatus := by
  refine h.bind (h.perform trivial) fun _ => Keeps.ite (h.pure _) ?_
  exact h.bind (h.perform trivial) fun _ => h.region h.sysmemStatus fun _ => h.pure _

theorem ioctlQuerySysmem : R.Keeps M .ioctl U ioctlQuerySysmem := by
  refine h.bind (h.perform trivial) fun _ => Keeps.ite (h.pure _) ?_
  refine h.bind (h.perform trivial) fun _ => ?_
  refine Triple.bind h.steady h.acquire fun _ => ?_
  refine Triple.bind h.steady (h.heldPlain ((within_perform _).mpr trivial)) fun c => ?_
  refine Triple.bind h.steady (h.heldPlain (outSysmem_within (fun _ _ _ => trivial) c)) fun _ => ?_
  exact Triple.bind h.steady h.release fun _ => h.pure _

/-- What the dispatcher lets through while a reset is in flight. -/
theorem handler_restricted {code : Ioctl} (hcode : code.allowedRestricted = true) :
    R.Keeps M .ioctl U (ioctlHandler fileObject code) := by
  cases code with
  | getDeviceInfo => exact h.plain (getDeviceInfo_only fun _ ho => ho)
  | resetDevice => exact h.bind h.reset fun _ => h.pure _
  | postReset => exact h.bind (h.ioctlPostReset h.recover) fun _ => h.pure _
  | querySysmem => exact h.ioctlQuerySysmem
  | _ => cases hcode

/-- Every handler, while no reset is in flight. -/
theorem handler_clear (code : Ioctl) :
    R.Triple M .ioctl C (ioctlHandler fileObject code) fun _ => U := by
  have hopen : ∀ {p : Drv (NtStatus × Nat)}, R.Keeps M .ioctl U p → R.Triple M .ioctl C p fun _ => U :=
    fun hp => Triple.weaken hp h.opened fun _ _ hq => hq
  have hno : ∀ {p : Drv NtStatus}, R.Triple M .ioctl C p (fun _ => U) →
      R.Triple M .ioctl C (noOutput p) fun _ => U := fun hp => Triple.bind h.steady hp fun _ => h.pure _
  cases code with
  | getDeviceInfo => exact hopen (h.handler_restricted rfl)
  | mapBar => exact h.handle (ioctlMapBar_only _)
  | unmapBar => exact hno (h.handle (ioctlUnmapBar_only _))
  | allocateTlb => exact h.handle (ioctlAllocateTlb_only (handleFoot_window _))
  | freeTlb => exact hno (h.handle (ioctlFreeTlb_only (handleFoot_window _)))
  | configureTlb => exact hno h.configure
  | mapTlb => exact h.handle (ioctlMapTlb_only _)
  | smcMsg => exact hopen h.ioctlSmcMsg
  | resetDevice => exact hopen (h.handler_restricted rfl)
  | arcStatus => exact hopen h.ioctlArcStatus
  | postReset => exact hopen (h.handler_restricted rfl)
  | querySysmem => exact hopen (h.handler_restricted rfl)
  | mapSysmem => exact h.handle (ioctlMapSysmem_only _)
  | sysmemStatus => exact hopen h.ioctlSysmemStatus
  | other code => exact hopen (h.pure _)

/-- A whole request. -/
theorem evtIoDeviceControl (code : Ioctl) :
    R.Keeps M .ioctl S (evtIoDeviceControl fileObject code) := by
  have hdone : ∀ s n, R.Triple M .ioctl U (op (.complete s n)) fun _ => S := fun s n =>
    Triple.weaken (h.perform trivial) (fun _ hw => hw) fun _ => h.started
  refine Triple.bind h.steady h.fence fun stale => ?_
  cases stale with
  | true => exact h.rejected
  | false =>
    refine h.clear (fun c hneeds => ?_) fun c hneeds => ?_
    · refine Triple.ite (fun _ => hdone _ _) fun hallowed => ?_
      have hcode : code.allowedRestricted = true := by simpa [hneeds] using hallowed
      exact Triple.bind h.steady (h.handler_restricted hcode) fun _ => hdone _ _
    · refine Triple.ite (fun hrejected => absurd hrejected (by simp [hneeds])) fun _ => ?_
      exact Triple.bind h.steady (h.handler_clear code) fun _ => hdone _ _

end RequestRegions

/-! ## Regions from a footprint -/

/-- What a thread keeps outside ArcLock and under it, for the operations of a footprint that
contains all but the arm path and the two resets. -/
structure FootRegions (M : Machine DriverSig Tid E W) (R : Protocol DriverSig Tid W) (t : Tid)
    (K : Op → Prop) (U H : W → Prop) : Prop where
  steady : R.Steady
  plain : ∀ o, o.plain → K o
  quiet : ∀ f, QuietFrame f → K (.store f)
  unverify : K (.store fun c => { c with sysmemVerified := false })
  access : ∀ p off, K (.mmioRead p off) ∧ ∀ v, K (.mmioWrite p off v)
  outside : ∀ {α : Type} {p : Drv α}, (p.Only fun o : Op => K o ∨ o.movesLock .arc) → R.Keeps M t U p
  held : ∀ {α : Type} {p : Drv α}, p.Only K → R.Keeps M t H p
  acquire : R.Triple M t U (acquire .arc) fun _ => H
  release : R.Triple M t H (release .arc) fun _ => U

namespace FootRegions

variable {t : Tid} {K : Op → Prop} {U H : W → Prop}

theorem mailScope (h : FootRegions M R t K U H) : MailScope (fun _ _ => True) K :=
  mailScope_of (fun o ho => h.plain o ho.plain) h.quiet h.access

/-- Code of the footprint, outside the lock. -/
theorem keeps (h : FootRegions M R t K U H) {α : Type} {p : Drv α} (hp : p.Only K) :
    R.Keeps M t U p := h.outside (hp.mono fun _ => .inl)

/-- A footprint kept outside and under the lock gives the regions. -/
theorem arcRegions (h : FootRegions M R t K U H) (harm : R.Keeps M t H armLocked) :
    ArcRegions M R t U H where
  steady := h.steady
  plain hp := h.keeps (hp.mono h.plain)
  heldPlain hp := h.held (hp.mono h.plain)
  acquire := h.acquire
  release := h.release
  mail msg := h.held (arcSendLocked_within h.mailScope msg)
  arm := harm
  unverify := h.held ((within_perform _).mpr h.unverify)

/-- A request whose handle may do what the footprint contains. -/
theorem requestRegions (h : FootRegions M R .ioctl K U H) {fileObject : Option FileObject}
    (hhandle : ∀ o, handleFoot fileObject o → K o ∨ o.movesLock .arc)
    (hlock : K (.acquire .state) ∧ K (.release .state)) (harm : R.Keeps M .ioctl H armLocked)
    (hreset : R.Keeps M .ioctl U (ioctlResetDevice fileObject))
    (hrecover : R.Keeps M .ioctl H recoverReset) : RequestRegions M R fileObject U U U H where
  toArcRegions := h.arcRegions harm
  rejected := h.keeps ((within_perform _).mpr (h.plain _ trivial))
  fence := by
    refine Triple.weaken (h.keeps (isStale_only (h.plain _ trivial) (fun _ => h.plain _ trivial) _))
      (fun _ hw => hw) fun stale w hw => ?_
    cases stale <;> exact hw
  started _ hw := hw
  opened _ hw := hw
  clear hin hclear := by
    refine Triple.bind (p := load) h.steady (h.keeps ((within_perform _).mpr (h.plain _ trivial)))
      fun c => ?_
    cases hneeds : c.needsHwInit with
    | true => exact hin c hneeds
    | false => exact hclear c hneeds
  status := h.held (arcStatusLocked_within h.mailScope)
  sysmemStatus := h.held (sysmemStatusLocked_within (h.plain _ trivial)
    (fun _ _ _ _ => (h.access _ _).1) fun _ _ _ => h.plain _ trivial)
  reset := hreset
  recover := hrecover
  handle hp := h.outside (hp.mono hhandle)
  configure := h.keeps (ioctlConfigureTlb_within h.plain hlock.1 hlock.2
    (fun p off => (h.access p off).2) fileObject)

end FootRegions

end TtWind
