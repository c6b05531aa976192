import TtWind.Laws.Records
import TtWind.Laws.Regions
import TtWind.Laws.Schedule

/-!
# When views are gone

RESET_DEVICE and ReleaseHardware both look at the mapping list, or empty it, and
go on as if no view were left. What is left then is exactly what the cleanup of
some handle has taken off the list and not yet unmapped, and what was left
behind in a terminating process. That is proved here from the account of the
records, for every interleaving.
-/

set_option autoImplicit false

namespace TtWind

open TtWind.Effect TtWind.Effect.Prog TtWind.Effect.Protocol

/-! ## Requests -/

section Requests

variable {cs : List Charge} {I : World → Prop} {α β : Type}

/-- Whatever leaves views alone may be done by a request at any time. -/
theorem keepsRecords_any {p : Drv α} (hp : p.Only Op.LeavesViews) :
    KeepsRecords cs (fun _ => True) p :=
  leaves_keeps (Stable.true _) (fun _ ho => ⟨ho, .inl rfl⟩)
    (fun _ ho w _ => mayDo_of_leaves ho fun h => by cases h) (fun _ _ _ _ _ _ _ _ => trivial) hp

theorem keepsRecords_plain (hI : Fixed .ioctl I) {p : Drv α} (hp : p.Only Op.plain) :
    KeepsRecords cs I p := by
  refine keepsRecords_calm hI (hp.mono fun o ho => ⟨leavesViews_of_plain ho, fun c => ?_⟩)
  cases o <;> first | rfl | exact (ho : False).elim

theorem deviceFoot_leavesViews {l : Lock} {o : Op} (h : deviceFoot l o) : o.LeavesViews := by
  cases o with
  | store f => exact ArcFrame.table h
  | _ => trivial

theorem resetFoot_leavesViews {o : Op} (h : resetFoot (fun _ => False) o) : o.LeavesViews := by
  cases o with
  | store f => exact ResetFrame.table h
  | setBusData off data => exact fun heq => h heq
  | _ => trivial

theorem windowScope_leavesViews (fileObject : Option FileObject) :
    WindowScope fileObject Op.LeavesViews :=
  ⟨fun _ => leavesViews_of_plain, fun _ _ => trivial, fun _ _ _ => trivial⟩

theorem KeepsRecords.bind {p : Drv α} {f : α → Drv β} (hp : KeepsRecords cs I p)
    (hf : ∀ a, KeepsRecords cs I (f a)) : KeepsRecords cs I (p >>= f) :=
  Keeps.bind views_steady hp hf

theorem ioctlMapBar_views (fileObject : Option FileObject) :
    KeepsRecords cs Clear (ioctlMapBar fileObject) := by
  have hI := fixed_clear
  have hdone : ∀ r, KeepsRecords cs Clear (Prog.pure r : Drv (NtStatus × Nat)) :=
    keepsRecords_pure hI
  refine KeepsRecords.vis hI trivial (fun _ => rfl) fun _ => Triple.ite (fun _ => hdone _) fun _ => ?_
  refine KeepsRecords.vis hI trivial (fun _ => rfl) fun _ => Triple.ite (fun _ => hdone _) fun _ => ?_
  refine KeepsRecords.vis hI trivial (fun _ => rfl) fun c => ?_
  refine KeepsRecords.vis hI trivial (fun _ => rfl) fun barIndex => ?_
  refine KeepsRecords.vis hI trivial (fun _ => rfl) fun cacheMode => ?_
  refine KeepsRecords.vis hI trivial (fun _ => rfl) fun offset => ?_
  refine KeepsRecords.vis hI trivial (fun _ => rfl) fun length => Triple.ite (fun _ => hdone _) fun _ => ?_
  refine KeepsRecords.bind (createUserMapping_views _ _ _ _ _) fun r => ?_
  cases r with
  | error s => exact hdone _
  | ok va =>
    exact keepsRecords_plain hI
      ⟨trivial, fun _ _ => ⟨trivial, fun _ _ => ⟨trivial, fun _ _ => ⟨trivial, fun _ _ => trivial⟩⟩⟩⟩

theorem ioctlMapTlb_views (fileObject : Option FileObject) :
    KeepsRecords cs Clear (ioctlMapTlb fileObject) := by
  have hI := fixed_clear
  have hdone : ∀ r, KeepsRecords cs Clear (Prog.pure r : Drv (NtStatus × Nat)) :=
    keepsRecords_pure hI
  cases fileObject with
  | none => exact hdone _
  | some fo =>
    refine KeepsRecords.vis hI trivial (fun _ => rfl) fun _ => Triple.ite (fun _ => hdone _) fun _ => ?_
    refine KeepsRecords.vis hI trivial (fun _ => rfl) fun _ => Triple.ite (fun _ => hdone _) fun _ => ?_
    refine KeepsRecords.vis hI trivial (fun _ => rfl) fun mode => Triple.ite (fun _ => hdone _) fun _ => ?_
    refine KeepsRecords.vis hI trivial (fun _ => rfl) fun tlbId => ?_
    refine KeepsRecords.vis hI trivial (fun _ => rfl) fun _ => Triple.ite (fun _ => hdone _) fun _ => ?_
    refine KeepsRecords.vis hI trivial (fun _ => rfl) fun c => Triple.ite (fun _ => hdone _) fun _ => ?_
    refine KeepsRecords.bind (createUserMapping_views _ _ _ _ _) fun r => ?_
    cases r with
    | error s => exact hdone _
    | ok va =>
      exact keepsRecords_plain hI ⟨trivial, fun _ _ => ⟨trivial, fun _ _ => trivial⟩⟩

theorem ioctlUnmapBar_views (fileObject : Option FileObject) :
    KeepsRecords cs (fun _ => True) (ioctlUnmapBar fileObject) := by
  have hI := fixed_true .ioctl
  have hdone : ∀ {cs : List Charge} r, KeepsRecords cs (fun _ => True) (Prog.pure r : Drv NtStatus) :=
    keepsRecords_pure hI
  cases fileObject with
  | none => exact hdone _
  | some fo =>
    refine KeepsRecords.vis hI trivial (fun _ => rfl) fun _ => Triple.ite (fun _ => hdone _) fun _ => ?_
    refine KeepsRecords.vis hI trivial (fun _ => rfl) fun userVa => ?_
    refine Triple.vis (I := fun found => Having .ioctl
        (((Section.takeMapping fo (UInt64.ofNat userVa)).taken found).map UserMapping.charge ++ cs)
        fun _ => True)
      (hI.having cs) (fun w _ _ => ?_) ?_ fun found => ?_
    · refine ⟨fun m wc a h => ?_, fun data h => ?_, fun h => ?_⟩ <;> cases h
    · intro w L e x w' hw hl hinv _ he
      obtain ⟨hinv', hguar, howns⟩ := exec_taken id he (fun _ => .inl rfl) hl hinv hw.1
      exact ⟨hinv', hguar, howns, trivial⟩
    · cases found with
      | none => exact hdone _
      | some m =>
        exact Triple.bind (p := destroyMapping m) views_steady (destroyMapping_views hI m) fun _ =>
          hdone _

/-- The charge after the attempt to map the sysmem buffer. -/
def mappedSection (addr : Nat) (p : Process) : Except NtStatus (UInt64 × UInt64) → Charge
  | .error _ => bare addr
  | .ok (base, _) => (addr, fun v => v.process = p ∧ v.va = base ∧ v.isDevice = false)

theorem mapSysmemToUser_views (hI : Fixed .ioctl I) (phys length : UInt64) (p : Process)
    (addr : Nat) :
    views.Triple driverMachine .ioctl (Having .ioctl (bare addr :: cs) I)
      (mapSysmemToUser phys length p addr)
      fun r => Having .ioctl (mappedSection addr p r :: cs) I := by
  have hdone : ∀ r, views.Triple driverMachine .ioctl (Having .ioctl (mappedSection addr p r :: cs) I)
      (Prog.pure r) fun r => Having .ioctl (mappedSection addr p r :: cs) I :=
    fun _ => Triple.pure (hI.having _) fun _ h => h
  let start := phys &&& ~~~(viewAlign - 1)
  let size := length + (phys - start)
  refine KeepsRecords.vis hI trivial (fun _ => rfl) fun status => ?_
  refine Triple.ite (fun _ => hdone (.error _)) fun _ => ?_
  refine Triple.bind (p := attachTo p) views_steady (attachTo_views hI p) fun saved => ?_
  refine Triple.vis (I := fun r => Having .ioctl (mapped addr p (.range start size) r :: cs) I)
    (Stable.and (hI.having _) (stable_inProcess .ioctl p)) (fun w _ _ => ?_) ?_ fun r => ?_
  · refine ⟨fun m wc a h => ?_, fun data h => ?_, fun h => ?_⟩ <;> cases h
  · intro w L e x w' hw _ hinv _ he
    have he : World.exec .ioctl (.mapView start size addr) e w = some (x, w') := he
    have hf := World.exec_frame he
    obtain ⟨w₁, hs, hw'⟩ := World.exec_step he
    obtain ⟨hinv', hguar, howns⟩ :=
      exec_addView he (.inl rfl) (addView_of_mapView hs) hw' hinv hw.1.1
    rw [show w.curProc .ioctl = p from hw.2] at howns
    exact ⟨hinv', hguar, howns, hI.ofContext w w' hf.ctx hf.started hw.1.2⟩
  · refine Triple.bind (p := detachFrom saved) views_steady (detachFrom_views hI saved) fun _ => ?_
    refine KeepsRecords.vis hI trivial (fun _ => rfl) fun _ => ?_
    cases r with
    | error s => exact hdone (.error _)
    | ok va =>
      refine Triple.weaken (hdone (.ok (va, _))) (fun w hw => ⟨hw.1.replace ?_, hw.2⟩) fun _ _ h => h
      intro v _ _ hv
      subst hv
      exact ⟨rfl, rfl, rfl⟩

theorem ioctlMapSysmem_views (fileObject : Option FileObject) :
    KeepsRecords cs (fun _ => True) (ioctlMapSysmem fileObject) := by
  have hI := fixed_true .ioctl
  have hdone : ∀ r, KeepsRecords cs (fun _ => True) (Prog.pure r : Drv (NtStatus × Nat)) :=
    keepsRecords_pure hI
  cases fileObject with
  | none => exact hdone _
  | some fo =>
    refine KeepsRecords.vis hI trivial (fun _ => rfl) fun _ => Triple.ite (fun _ => hdone _) fun _ => ?_
    refine KeepsRecords.vis hI trivial (fun _ => rfl) fun _ => Triple.ite (fun _ => hdone _) fun _ => ?_
    refine KeepsRecords.vis hI trivial (fun _ => rfl) fun offset => ?_
    refine KeepsRecords.vis hI trivial (fun _ => rfl) fun len => Triple.ite (fun _ => hdone _) fun _ => ?_
    refine KeepsRecords.vis hI trivial (fun _ => rfl) fun _ => ?_
    refine KeepsRecords.vis hI trivial (fun _ => rfl) fun c => ?_
    refine KeepsRecords.vis hI trivial (fun _ => rfl) fun _ => Triple.ite (fun _ => hdone _) fun _ => ?_
    refine KeepsRecords.vis hI trivial (fun _ => rfl) fun c => Triple.ite (fun _ => hdone _) fun _ => ?_
    refine Triple.bind (p := mappingProcess) views_steady (mappingProcess_views hI) fun p => ?_
    refine allocPool_views hI (hdone _) fun addr => ?_
    refine KeepsRecords.vis hI trivial (fun _ => rfl) fun _ => ?_
    refine KeepsRecords.vis hI trivial (fun _ => rfl) fun c => ?_
    refine Triple.bind (p := mapSysmemToUser _ _ p addr) views_steady
      (mapSysmemToUser_views hI _ _ p addr) fun r => ?_
    cases r with
    | error s => exact abandon_views hI p addr _
    | ok r =>
      obtain ⟨base, userVa⟩ := r
      refine Triple.vis (I := fun _ => Having .ioctl cs fun _ => True) (hI.having _)
        (fun w _ _ => ?_) ?_ fun _ => ?_
      · refine ⟨fun m wc a h => ?_, fun data h => ?_, fun h => ?_⟩ <;> cases h
      · intro w L e x w' hw _ hinv _ he
        obtain ⟨-, hpool, hviews⟩ := exec_locked he
        have hlist := congrArg DeviceContext.mappingList (World.exec_frame he).ctx
        obtain ⟨hinv', hguar, howns⟩ := exec_listed he hlist hpool hviews hinv hw.1
        exact ⟨hinv', hguar, howns, trivial⟩
      · exact keepsRecords_plain hI ⟨trivial, fun _ _ => ⟨trivial, fun _ _ =>
          ⟨trivial, fun _ _ => ⟨trivial, fun _ _ => trivial⟩⟩⟩⟩

/-! ## RESET_DEVICE -/

/-- Once the list is found empty it stays so. -/
theorem keepsUnlisted {p : Drv α} (hp : p.Only Op.LeavesViews) : KeepsRecords [] Unlisted p := by
  have hI : Fixed .ioctl Unlisted := fixed_unlisted (.inl rfl)
  refine leaves_keeps hI.stable (fun _ ho => ⟨ho, .inl rfl⟩)
    (fun _ ho w _ => mayDo_of_leaves ho fun h => by cases h) ?_ hp
  intro o ho e w x w' he h
  obtain ⟨-, hlist, -⟩ := Op.LeavesViews.still ho he
  exact hlist.trans h

theorem configScope_leavesViews : ConfigScope Op.LeavesViews where
  plain _ := leavesViews_of_plain
  setBusData _ _ hoff := hoff
  setFileGen _ _ := trivial
  store _ hf := hf.reset.table

/-- Nothing is listed, and a reset is in flight. -/
def Armed (w : World) : Prop := Unlisted w ∧ w.ctx.needsHwInit = true

theorem fixed_armed : Fixed .ioctl Armed := by
  have hlist : Fixed .ioctl Unlisted := fixed_unlisted (.inl rfl)
  refine ⟨Stable.and hlist.stable fun w w' hr h => ?_, fun w w' hctx hst h => ?_⟩
  · have hr : Untouched .ioctl w w' := hr
    exact (hr.needs rfl).trans h
  · refine ⟨hlist.ofContext w w' hctx hst h.1, ?_⟩
    rw [hctx]
    exact h.2

/-- The reset trigger itself. -/
theorem trigger_views (data : List UInt8) :
    KeepsRecords [] Armed (cfgWrite ifcTimerControlOff data) := by
  refine Triple.vis (I := fun _ => Having .ioctl [] Armed) (fixed_armed.having [])
    (fun w hw _ => ?_) ?_ fun _ => keepsRecords_pure fixed_armed _
  · refine ⟨fun m wc a h => ?_, fun _ _ => ⟨rfl, ⟨hw.2.1, hw.1.none⟩, hw.2.2⟩, fun h => ?_⟩
    · cases h
    · cases h
  · intro w L e x w' hw _ hinv _ he
    have he : World.exec .ioctl (.setBusData ifcTimerControlOff data) e w = some (x, w') := he
    have hf := World.exec_frame he
    have hviews : w'.views = w.views := hf.views id
    obtain ⟨hinv', hguar, howns⟩ := exec_unmoved he (.inl rfl) hinv (hf.pool id)
      (congrArg _ hf.ctx) (shown_of_views he (hviews ▸ List.Subset.refl _))
    exact ⟨hinv', hguar, howns [] hw.1, fixed_armed.ofContext w w' hf.ctx hf.started hw.2⟩

/-- RESET_DEVICE restricts the device before it writes the trigger. -/
theorem armReset_views (fileObject : Option FileObject) :
    views.Triple driverMachine .ioctl (Having .ioctl [] Unlisted) (armReset fileObject)
      fun _ => Having .ioctl [] fun _ => True := by
  have hscope := configScope_leavesViews
  have hunlisted : views.Stable .ioctl (Having .ioctl [] Unlisted) :=
    (fixed_unlisted (.inl rfl)).having []
  have hif : ∀ {α : Type} {p : Drv α} {b : α → Bool}, KeepsRecords [] Unlisted p →
      views.Triple driverMachine .ioctl (Having .ioctl [] Unlisted) p fun x w =>
        if b x then Having .ioctl [] Unlisted w else Having .ioctl [] (fun _ => True) w := by
    intro α p b hp
    refine Triple.weaken hp (fun _ h => h) fun x w hw => ?_
    cases b x with
    | true => exact hw
    | false => exact ⟨hw.1, trivial⟩
  have hunverify : KeepsRecords [] Armed (store fun c => { c with sysmemVerified := false }) := by
    refine leaves_keeps (K := fun o => o = .store fun c => { c with sysmemVerified := false })
      fixed_armed.stable ?_ ?_ ?_ ((within_perform _).mpr rfl)
    · rintro o rfl
      exact ⟨fun _ => ⟨rfl, rfl, rfl, rfl⟩, .inl rfl⟩
    · rintro o rfl w -
      exact mayDo_of_leaves (fun _ => ⟨rfl, rfl, rfl, rfl⟩) fun h => by cases h
    · rintro o rfl e w x w' he h
      rw [Armed, Unlisted, (World.exec_frame he).ctx]
      exact h
  refine ArmOutline.armReset (P := Having .ioctl [] Unlisted) (S := Having .ioctl [] Unlisted)
    (K := Having .ioctl [] Unlisted) (F := Having .ioctl [] Unlisted)
    (C := Having .ioctl [] Unlisted) (N := Having .ioctl [] Armed) (V := Having .ioctl [] Armed) {
    steady := views_steady
    stable := ⟨hunlisted, hunlisted, (fixed_true .ioctl).having []⟩
    stops := fun w hw => ⟨(hw.elim id id).1, trivial⟩
    present := keepsUnlisted (devicePresent_only hscope.restoring.silent)
    save := hif (keepsUnlisted (saveConfigOnce_only hscope.restoring.silent hscope.store))
    marker := keepsUnlisted (cfgRead_only hscope.restoring.silent _ _)
    mark := fun _ => hif (keepsUnlisted (cfgWrite_only hscope.toBusScope (by decide) _))
    fence := keepsUnlisted ((within_perform _).mpr trivial)
    carry := keepsUnlisted (carryForward_only (hscope.plain _ trivial) hscope.setFileGen _)
    restrict := ?_
    unverify := hunverify
    target := ?_
    trigger := Triple.weaken (trigger_views _) (fun _ h => h) fun _ _ hw => ⟨hw.1, trivial⟩ }
  · refine Triple.vis (I := fun _ => Having .ioctl [] Armed) hunlisted
      (fun w _ _ => mayDo_of_leaves (fun _ => ⟨rfl, rfl, rfl, rfl⟩) fun h => by cases h) ?_
      fun _ => keepsRecords_pure fixed_armed _
    intro w L e x w' hw _ hinv _ he
    have he : World.exec .ioctl (.store fun c => { c with needsHwInit := true }) e w =
        some (x, w') := he
    have hl : (Op.store fun c => { c with needsHwInit := true }).LeavesViews :=
      fun _ => ⟨rfl, rfl, rfl, rfl⟩
    have hctx := (World.exec_frame he).ctx
    obtain ⟨hinv', hguar, howns⟩ := exec_leavesViews hl (.inl rfl) he hinv
    refine ⟨hinv', hguar, howns [] hw.1, ?_, ?_⟩
    · rw [Unlisted, hctx]
      exact hw.2
    · rw [hctx]
      rfl
  · refine keepsRecords_calm fixed_armed ?_
    exact ⟨⟨show ifcTimerTargetOff ≠ ifcTimerControlOff by decide, fun _ => rfl⟩, fun _ _ => trivial⟩

theorem ioctlResetDevice_views (fileObject : Option FileObject) :
    KeepsRecords [] (fun _ => True) (ioctlResetDevice fileObject) := by
  have hI := fixed_true .ioctl
  have hdone : ∀ r, KeepsRecords [] (fun _ => True) (Prog.pure r : Drv NtStatus) :=
    keepsRecords_pure hI
  refine KeepsRecords.vis hI trivial (fun _ => rfl) fun _ => Triple.ite (fun _ => hdone _) fun _ => ?_
  refine KeepsRecords.vis hI trivial (fun _ => rfl) fun flags => ?_
  refine KeepsRecords.vis hI trivial (fun _ => rfl) fun reserved => Triple.ite (fun _ => hdone _) fun _ => ?_
  refine KeepsRecords.vis hI trivial (fun _ => rfl) fun c => Triple.ite (fun _ => hdone _) fun _ => ?_
  -- the busy check: if it answers no, the list is empty
  refine Triple.vis (I := fun busy => Having .ioctl [] fun w => busy = false → Unlisted w)
    (hI.having []) (fun w _ _ => ?_) ?_ fun busy => ?_
  · refine ⟨fun m wc a h => ?_, fun data h => ?_, fun h => ?_⟩ <;> cases h
  · intro w L e x w' hw _ hinv _ he
    have he : World.exec .ioctl (.locked .anyMapping) e w = some (x, w') := he
    obtain ⟨hx, -, -⟩ := exec_locked he
    obtain ⟨hinv', hguar, howns⟩ :=
      exec_leavesViews (o := .locked .anyMapping) trivial (.inl rfl) he hinv
    refine ⟨hinv', hguar, howns [] hw.1, fun hfalse => ?_⟩
    have hctx : w'.ctx = w.ctx := (World.exec_frame he).ctx
    rw [hx] at hfalse
    rw [Unlisted, hctx]
    simpa [Section.run] using hfalse
  · cases busy with
    | true => exact Triple.weaken (hdone _) (fun w hw => ⟨hw.1, trivial⟩) fun _ _ h => h
    | false =>
      refine Triple.weaken (P := Having .ioctl [] Unlisted) ?_ (fun w hw => ⟨hw.1, hw.2 rfl⟩)
        fun _ _ h => h
      refine Triple.bind (p := acquire .arc) views_steady
        (keepsUnlisted ((within_perform _).mpr trivial)) fun _ => ?_
      refine Triple.bind (p := armReset fileObject) views_steady (armReset_views fileObject) fun _ => ?_
      exact keepsRecords_any ⟨trivial, fun _ _ => trivial⟩

/-! ## Dispatch -/

/-- The requests that map device memory. -/
def Ioctl.MapsDevice : Ioctl → Prop
  | .mapBar | .mapTlb => True
  | _ => False

theorem ioctlHandler_views (fileObject : Option FileObject) {code : Ioctl}
    (hcode : ¬ code.MapsDevice) :
    KeepsRecords [] (fun _ => True) (ioctlHandler fileObject code) := by
  have hd : ∀ {l : Lock} {α : Type} {p : Drv α}, p.Only (deviceFoot l) →
      KeepsRecords [] (fun _ => True) p :=
    fun hp => keepsRecords_any (hp.mono fun _ => deviceFoot_leavesViews)
  have hno : ∀ {p : Drv NtStatus}, KeepsRecords [] (fun _ => True) p →
      KeepsRecords [] (fun _ => True) (noOutput p) :=
    fun hp => KeepsRecords.bind hp fun _ => keepsRecords_pure (fixed_true _) _
  cases code with
  | getDeviceInfo => exact keepsRecords_any (getDeviceInfo_only fun _ => leavesViews_of_plain)
  | mapBar => exact absurd trivial hcode
  | unmapBar => exact hno (ioctlUnmapBar_views _)
  | allocateTlb => exact keepsRecords_any (ioctlAllocateTlb_only (windowScope_leavesViews _))
  | freeTlb => exact hno (keepsRecords_any (ioctlFreeTlb_only (windowScope_leavesViews _)))
  | configureTlb => exact hno (hd (ioctlConfigureTlb_only _))
  | mapTlb => exact absurd trivial hcode
  | smcMsg => exact hd ioctlSmcMsg_only
  | resetDevice => exact hno (ioctlResetDevice_views _)
  | arcStatus => exact hd ioctlArcStatus_only
  | postReset =>
    exact hno (keepsRecords_any (ioctlPostReset_only.mono fun _ => resetFoot_leavesViews))
  | querySysmem =>
    exact keepsRecords_any (ioctlQuerySysmem_only (fun _ => leavesViews_of_plain) trivial trivial)
  | mapSysmem => exact ioctlMapSysmem_views _
  | sysmemStatus => exact hd ioctlSysmemStatus_only
  | other => exact keepsRecords_pure (fixed_true _) _

theorem ioctlHandler_views_maps (fileObject : Option FileObject) {code : Ioctl}
    (hcode : code.MapsDevice) : KeepsRecords [] Clear (ioctlHandler fileObject code) := by
  cases code with
  | mapBar => exact ioctlMapBar_views _
  | mapTlb => exact ioctlMapTlb_views _
  | _ => exact (hcode : False).elim

theorem evtIoDeviceControl_views (fileObject : Option FileObject) (code : Ioctl) :
    KeepsRecords [] (fun _ => True) (evtIoDeviceControl fileObject code) := by
  have hI := fixed_true .ioctl
  have hdone : ∀ s n, KeepsRecords [] (fun _ => True) (op (.complete s n)) :=
    fun _ _ => keepsRecords_plain hI ((within_perform _).mpr trivial)
  refine KeepsRecords.bind (keepsRecords_plain hI (isStale_only trivial (fun _ => trivial) _))
    fun stale => Triple.ite (fun _ => hdone _ _) fun _ => ?_
  -- what the dispatcher reads of the restriction stays true: only requests change it
  refine Triple.vis (I := fun c => Having .ioctl []
      fun w => w.ctx.needsHwInit = DeviceContext.needsHwInit c)
    (hI.having []) (fun w _ _ => mayDo_of_leaves trivial fun h => by cases h) ?_ fun c => ?_
  · intro w L e x w' hw _ hinv _ he
    have he : World.exec .ioctl .load e w = some (x, w') := he
    obtain ⟨hinv', hguar, hw'⟩ := Having.leaves (o := .load) hI trivial (fun _ => rfl) he hinv hw
    obtain ⟨w₁, hs, rfl⟩ := World.exec_step he
    obtain ⟨rfl, rfl⟩ := Prod.mk.inj (Option.some.inj hs)
    exact ⟨hinv', hguar, hw'.1, rfl⟩
  by_cases hcode : code.MapsDevice
  · cases hneeds : DeviceContext.needsHwInit c with
    | true =>
      refine Triple.weaken ?_ (fun w hw => (⟨hw.1, trivial⟩ : Having .ioctl [] (fun _ => True) w))
        fun _ _ h => h
      refine Triple.ite (fun _ => hdone _ _) fun hallowed => absurd ?_ hallowed
      rw [hneeds]
      cases code <;> first | rfl | exact (hcode : False).elim
    | false =>
      refine Triple.weaken (P := Having .ioctl [] Clear) (Q := fun _ => Having .ioctl [] Clear) ?_
        (fun w hw => hw) fun _ w hw => ⟨hw.1, trivial⟩
      have hclear : ∀ s n, KeepsRecords [] Clear (op (.complete s n)) :=
        fun _ _ => keepsRecords_plain fixed_clear ((within_perform _).mpr trivial)
      exact Triple.ite (fun _ => hclear _ _) fun _ =>
        KeepsRecords.bind (ioctlHandler_views_maps fileObject hcode) fun _ => hclear _ _
  · refine Triple.weaken ?_ (fun w hw => (⟨hw.1, trivial⟩ : Having .ioctl [] (fun _ => True) w))
      fun _ _ h => h
    exact Triple.ite (fun _ => hdone _ _) fun _ =>
      KeepsRecords.bind (ioctlHandler_views fileObject hcode) fun _ => hdone _ _

end Requests

/-! ## The other calls -/

theorem power_views (cb : PowerCallback) :
    views.Keeps driverMachine .power (Having .power [] fun _ => True) cb.code := by
  refine leaves_keeps (Stable.true _) (fun o ho => ⟨deviceFoot_leavesViews ho, .inr (.inr fun c => ?_)⟩)
    (fun o ho w _ => mayDo_of_leaves (deviceFoot_leavesViews ho) fun h => by cases h)
    (fun _ _ _ _ _ _ _ _ => trivial) ((power_only cb).mono fun _ => arcFoot_of_powerFoot)
  cases o with
  | store f =>
    have hf : ArcFrame f := ho
    rw [Op.effect, hf c]
  | locked s => exact (ho : False).elim
  | _ => rfl

theorem create_views (fo : FileObject) : views.Keeps driverMachine (.create fo)
    (Having (.create fo) [] fun _ => True) (evtDeviceFileCreate fo) := by
  have hcreate : ∀ o, createFoot o → o.LeavesViews ∧ o.NeedsOf (.create fo) := by
    intro o ho
    cases o <;> first
      | exact ⟨trivial, .inr (.inr fun _ => rfl)⟩
      | exact (ho : False).elim
  exact leaves_keeps (Stable.true _) hcreate
    (fun o ho w _ => mayDo_of_leaves (hcreate o ho).1 fun h => by cases h)
    (fun _ _ _ _ _ _ _ _ => trivial) (evtDeviceFileCreate_only fo)

/-- A section that takes records off the list, then the destruction of what it took. -/
theorem sweep_views {t : Tid} {s : Section} {I : World → Prop} {ms : s.Ans → List UserMapping}
    (hI : Fixed t I) (hms : s.taken = ms) (hs : ¬ s.Inserts) (hp : (Place.detached t).Proper)
    (hdo : t = .hardware → (Op.locked s).ofRevocation)
    (hsets : ∀ {e : Choice} {w w' : World} {x : s.Ans},
      World.exec t (.locked s) e w = some (x, w') → I w') :
    views.Triple driverMachine t (Having t [] fun _ => True)
      (do
        let x ← locked s
        destroyAll (ms x))
      fun _ => Having t [] I := by
  refine Triple.vis (I := fun x => Having t ((s.taken x).map UserMapping.charge ++ []) I)
    ((fixed_true t).having []) (fun w _ _ => ?_) ?_ fun x => ?_
  · refine ⟨fun m wc a h => ?_, fun data h => ?_, fun ht _ hn => absurd (hdo ht) hn⟩ <;> cases h
  · intro w L e x w' hw hl hinv _ he
    obtain ⟨hinv', hguar, howns⟩ := exec_taken hs he (fun _ => hp) hl hinv hw.1
    exact ⟨hinv', hguar, howns, hsets he⟩
  · rw [hms]
    exact destroyAll_views hI (ms x)

theorem evtFileCleanup_views (fo : FileObject) : views.Keeps driverMachine (.cleanup fo)
    (Having (.cleanup fo) [] fun _ => True) (evtFileCleanup fo) :=
  sweep_views (s := .sweepFile fo) (fixed_true _) rfl id (.inr (.inr ⟨fo, rfl⟩))
    (fun h => by cases h) fun _ => trivial

theorem prepareFoot_leavesViews {o : Op} (h : prepareFoot o) : o.LeavesViews := by
  cases o with
  | store f => exact HardwareFrame.table h
  | _ => trivial

theorem prepareHardware_views (resources : List ResourceDesc) : views.Keeps driverMachine .hardware
    (Having .hardware [] fun w => w.started = true) (evtDevicePrepareHardware resources) := by
  refine leaves_keeps fixed_started.stable (fun o ho => ⟨prepareFoot_leavesViews ho, .inr (.inl rfl)⟩)
    (fun o ho w hw => mayDo_of_leaves (prepareFoot_leavesViews ho) fun _ hst => ?_) ?_
    (evtDevicePrepareHardware_only resources)
  · rw [show w.started = true from hw.2] at hst
    cases hst
  · intro o ho e w x w' he h
    exact (World.exec_frame he).started.trans h

/-- After its revocation ReleaseHardware has nothing, and nothing is listed. -/
theorem releaseHardware_views : views.Triple driverMachine .hardware
    (Having .hardware [] fun _ => True) evtDeviceReleaseHardware
    fun _ => Having .hardware [] Unlisted := by
  have hI : Fixed .hardware Unlisted := fixed_unlisted (.inr rfl)
  have hrevoke : views.Triple driverMachine .hardware (Having .hardware [] fun _ => True)
      revokeAllMappings fun _ => Having .hardware [] Unlisted := by
    refine sweep_views (s := .sweepAll) hI rfl id (.inr (.inl rfl)) (fun _ => rfl) fun he => ?_
    rw [Unlisted, (World.exec_frame he).ctx]
    rfl
  refine Triple.bind views_steady hrevoke fun _ => ?_
  let K : Op → Prop := fun o => o.LeavesViews ∧ ∀ c, (o.effect c).mappingList = c.mappingList
  have hplain : ∀ o : Op, o.plain → K o := fun o ho => ⟨leavesViews_of_plain ho, fun c => by
    cases o <;> first | rfl | exact (ho : False).elim⟩
  have hstore : ∀ f, HardwareFrame f → K (.store f) := fun f hf =>
    ⟨hf.table, fun c => (hf.table c).1⟩
  have hscope : HardwareScope K := {
    silent := fun o ho => hplain o ho.plain
    store := fun f hf _ _ _ => hstore f hf
    queryInterface := ⟨trivial, fun _ => rfl⟩
    dereferenceInterface := ⟨trivial, fun _ => rfl⟩
    allocContiguous := fun _ _ _ => ⟨trivial, fun _ => rfl⟩
    bufferZero := fun _ => ⟨trivial, fun _ => rfl⟩ }
  refine leaves_keeps (K := K) hI.stable (fun o ho => ⟨ho.1, .inr (.inl rfl)⟩)
    (fun o ho w hw => mayDo_of_leaves ho.1 fun _ _ _ => ⟨hw.2, hw.1.none⟩) ?_
    (releaseResources_only hscope (fun f hf _ _ => hstore f hf) (fun _ => ⟨trivial, fun _ => rfl⟩)
      (fun _ => ⟨trivial, fun _ => rfl⟩) (fun _ _ => ⟨trivial, fun _ => rfl⟩)
      fun _ _ => ⟨trivial, fun _ => rfl⟩)
  intro o ho e w x w' he h
  rw [Unlisted, (World.exec_frame he).ctx, ho.2]
  exact h

/-! ## The whole system -/

/-- What the beginning of a call leaves as it was. -/
theorem begins_untouched {L : Tid → Prop} {t u : Tid} {p : Drv Unit} {w w' : World}
    (h : Begins L t p w w') (hu : u ≠ t) : Untouched u w w' := by
  have hcur : w'.curProc u = w.curProc u := by cases h <;> exact Function.update_of_ne hu _ _
  cases h <;> exact ⟨hcur, fun _ h => h, fun _ => Iff.rfl, fun _ _ h => h,
    fun _ => List.Subset.refl _, fun _ => rfl, fun hhw => by first | rfl | exact absurd hhw hu⟩

/-- The world a call begins in, as far as records go. -/
theorem begins_records {L : Tid → Prop} {t : Tid} {p : Drv Unit} {w w' : World}
    (h : Begins L t p w w') : w'.pool = w.pool ∧ w'.views = w.views ∧ w'.procs = w.procs := by
  cases h <;> exact ⟨rfl, rfl, rfl⟩

/-- The account of the records, for other live threads and a world that has the same. -/
theorem ViewsInv.congr {L L' : Tid → Prop} {w w' : World} (h : ViewsInv L w)
    (hctx : w'.ctx.mappingList = w.ctx.mappingList) (hpool : w'.pool = w.pool)
    (hshown : ∀ v, w'.Shown v → w.Shown v) (hapart : ¬ (L' .ioctl ∧ L' .hardware))
    (hlive : ∀ t, L t → (∃ a, w.Has t a) → L' t) : ViewsInv L' w' where
  apart := hapart
  placed v hv := by
    rw [hpool]
    exact h.placed v (hshown v hv)
  proper a pl hpl := by
    rw [hpool] at hpl
    obtain ⟨hproper, hl⟩ := h.proper a pl hpl
    exact ⟨hproper, fun t ht => hlive t (hl t ht) ⟨a, pl, hpl, ht⟩⟩
  listed a := by
    rw [hpool, hctx]
    exact h.listed a
  nodup := by
    rw [hctx]
    exact h.nodup
  shows m hm v hv := by
    rw [hctx] at hm
    exact h.shows m hm v (hshown v hv)

theorem begins_apart {L : Tid → Prop} {t : Tid} {p : Drv Unit} {w w' : World}
    (h : Begins L t p w w') (hinv : ¬ (L .ioctl ∧ L .hardware)) :
    ¬ ((Tid.ioctl = t ∨ L .ioctl) ∧ (Tid.hardware = t ∨ L .hardware)) := by
  cases h with
  | ioctl r code p hhw => simp [hhw]
  | power cb p hhw => simpa using hinv
  | prepare resources p hp hio => simp [hio]
  | release p hp hio => simp [hio]
  | create fo p => simpa using hinv
  | cleanup fo p => simpa using hinv

theorem begins_safe_views {L : Tid → Prop} {t : Tid} {p : Drv Unit} {w w' : World}
    (h : Begins L t p w w') (hnone : Owns t [] w') :
    views.Safe driverMachine t p (fun _ => views.post t) w' := by
  have hidle : ∀ {u : Tid} {p : Drv Unit}, u ≠ .hardware → Owns u [] w' →
      views.Keeps driverMachine u (Having u [] fun _ => True) p →
      views.Safe driverMachine u p (fun _ => views.post u) w' := fun hu hnone hp =>
    (hp w' ⟨hnone, trivial⟩).mono fun _ _ hw => ⟨hw.1, fun hhw => absurd hhw hu⟩
  cases h with
  | ioctl r code => exact hidle (by simp) hnone (evtIoDeviceControl_views _ _)
  | power cb => exact hidle (by simp) hnone (power_views cb)
  | create fo => exact hidle (by simp) hnone (create_views fo)
  | cleanup fo => exact hidle (by simp) hnone (evtFileCleanup_views fo)
  | prepare resources =>
    have hprepare : views.Keeps driverMachine .hardware (Having .hardware [] fun w => w.started = true)
        (do let _ ← evtDevicePrepareHardware resources) :=
      Keeps.bind views_steady (prepareHardware_views resources) fun _ =>
        Triple.pure (fixed_started.having []) fun _ h => h
    refine (hprepare _ ⟨hnone, rfl⟩).mono fun _ w hw => ⟨hw.1, fun _ hst => ?_⟩
    rw [show w.started = true from hw.2] at hst
    cases hst
  | release =>
    exact (releaseHardware_views _ ⟨hnone, trivial⟩).mono fun _ _ hw => ⟨hw.1, fun _ _ => hw.2⟩

theorem views_sound : views.Sound driver where
  toSteady := views_steady
  initial w hw := by
    obtain ⟨buffer, rfl⟩ := hw
    exact {
      apart := fun h => h.1
      placed := fun v hv => absurd hv.1 (by simp)
      proper := fun a pl hpl => by cases hpl
      listed := fun a => by simp
      nodup := List.nodup_nil
      shows := fun m hm => by cases hm }
  compat L t t' w w' ht ht' hne hinv _ hguar :=
    hguar t' ⟨Ne.symm hne, fun h => hinv.apart ⟨h.1 ▸ ht, h.2 ▸ ht'⟩,
      fun h => hinv.apart ⟨h.2 ▸ ht', h.1 ▸ ht⟩⟩
  begins L t p w w' hb hnl hinv _ := by
    obtain ⟨hpool, hviews, hprocs⟩ := begins_records hb
    have hctx := begins_ctx hb
    have hinv' : ViewsInv (fun u => u = t ∨ L u) w' := by
      refine hinv.congr (by rw [hctx]) hpool (fun v hv => ?_) (begins_apart hb hinv.apart)
        fun u hu _ => .inr hu
      rwa [World.Shown, hviews, hprocs] at hv
    refine ⟨hinv', fun t' ht' => begins_untouched hb fun h => hnl (h ▸ ht'), ?_⟩
    apply begins_safe_views hb
    refine owns_nil fun a ha => ?_
    rw [World.has_congr hpool] at ha
    exact (hinv.owns_nil hnl).none a ha
  ends L t w w' he hl hinv _ hpost := by
    obtain rfl : w' = w.leave t := he
    have hsame : (w.leave t).pool = w.pool ∧ (w.leave t).views = w.views ∧
        (w.leave t).procs = w.procs ∧ (w.leave t).curProc = w.curProc ∧
        (w.leave t).started = w.started := by
      cases t <;> exact ⟨rfl, rfl, rfl, rfl, rfl⟩
    obtain ⟨hpool, hviews, hprocs, hcur, hst⟩ := hsame
    have hshown : ∀ v, (w.leave t).Shown v → w.Shown v := fun v hv => by
      rwa [World.Shown, hviews, hprocs] at hv
    refine ⟨hinv.congr (by rw [w.leave_ctx]) hpool hshown (fun h => hinv.apart ⟨h.1.2, h.2.2⟩)
      fun u hu ⟨a, ha⟩ => ⟨fun h => ?_, hu⟩, fun u _ => ?_⟩
    · exact hpost.1.none a (h ▸ ha)
    · exact {
        curProc := by rw [hcur]
        procs := fun p hp => by rwa [hprocs] at hp
        has := World.has_congr hpool u
        shown := fun v _ hv => hshown v hv
        list := fun _ => by
          rw [w.leave_ctx]
          exact List.Subset.refl _
        needs := fun _ => by rw [w.leave_ctx]
        started := fun _ => hst }
  env L w w' he hinv _ := by
    have hsame : w'.ctx = w.ctx ∧ w'.pool = w.pool ∧ w'.curProc = w.curProc ∧
        w'.started = w.started := by
      cases he <;> exact ⟨rfl, rfl, rfl, rfl⟩
    obtain ⟨hctx, hpool, hcur, hst⟩ := hsame
    have hprocs : ∀ p, w'.procs p = .running → w.procs p = .running := by
      intro p hp
      cases he with
      | exits q =>
        by_cases hpq : p = q
        · simp [hpq] at hp
        · simpa [Function.update_of_ne hpq] using hp
      | gone q =>
        by_cases hpq : p = q
        · simp [hpq] at hp
        · simpa [Function.update_of_ne hpq] using hp
      | buffer b => exact hp
    have hviews : w'.views ⊆ w.views := by
      cases he with
      | exits q => exact List.Subset.refl _
      | gone q => exact fun v hv => (List.mem_filter.mp hv).1
      | buffer b => exact List.Subset.refl _
    have hshown : ∀ v, w'.Shown v → w.Shown v := fun v hv => ⟨hviews hv.1, hprocs _ hv.2⟩
    refine ⟨hinv.congr (by rw [hctx]) hpool hshown hinv.apart fun u hu _ => hu, fun u _ => ?_⟩
    exact {
      curProc := by rw [hcur]
      procs := hprocs
      has := World.has_congr hpool u
      shown := fun v _ hv => hshown v hv
      list := fun _ => by
        rw [hctx]
        exact List.Subset.refl _
      needs := fun _ => by rw [hctx]
      started := fun _ => hst }

/-! ## Views that nothing listed answers for -/

/-- The view's record is one that the cleanup of a handle has taken off the list and not
yet destroyed. -/
def World.Swept (w : World) (v : View) : Prop :=
  ∃ fo, w.pool v.addr = some (.detached (.cleanup fo))

/-- With nothing listed and nothing in the hands of the queue or the hardware callbacks,
only a cleanup can still answer for a view. -/
theorem ViewsInv.swept {L : Tid → Prop} {t : Tid} {w : World} (h : ViewsInv L w) (hl : L t)
    (ht : t = .ioctl ∨ t = .hardware) (he : w.Emptied t) {v : View} (hv : w.Shown v) :
    w.Swept v := by
  -- a record of the queue or of a hardware callback is the thread's own
  have hmine : ∀ u, u = .ioctl ∨ u = .hardware → ¬ w.Has u v.addr := by
    intro u hu hhas
    have hlu : L u := by
      obtain ⟨pl, hpl, hown⟩ := hhas
      exact (h.proper _ pl hpl).2 u hown
    by_cases hut : u = t
    · exact he.none _ (hut ▸ hhas)
    · rcases hu with rfl | rfl <;> rcases ht with rfl | rfl
      · exact hut rfl
      · exact h.apart ⟨hlu, hl⟩
      · exact h.apart ⟨hl, hlu⟩
      · exact hut rfl
  obtain ⟨pl, hpl⟩ := Option.ne_none_iff_exists'.mp (h.placed v hv)
  have hproper := (h.proper _ pl hpl).1
  cases pl with
  | building u =>
    obtain rfl : u = .ioctl := hproper
    exact absurd ⟨_, hpl, rfl⟩ (hmine .ioctl (.inl rfl))
  | listed =>
    have hmem := (h.listed _).mp hpl
    rw [he.unlisted] at hmem
    cases hmem
  | detached u =>
    rcases hproper with rfl | rfl | ⟨fo, rfl⟩
    · exact absurd ⟨_, hpl, rfl⟩ (hmine .ioctl (.inl rfl))
    · exact absurd ⟨_, hpl, rfl⟩ (hmine .hardware (.inr rfl))
    · exact ⟨fo, hpl⟩

/-! ## No user view during a reset -/

/-- Steps taken while the device is restricted: up to the one by which POST_RESET lifts
the restriction. -/
def restricted (_ : Tid) (_ : Op) (w : World) : Prop := w.ctx.needsHwInit = true

/-- Only one operation makes a view of device memory. -/
theorem exec_deviceViews {t : Tid} {o : Op} {e : Choice} {w w' : World} {x : o.Ans}
    (ho : ∀ m wc a, o ≠ .mapLockedPages m wc a) (he : w.exec t o e = some (x, w')) {v : View}
    (hv : v ∈ w'.views) (hd : v.isDevice = true) : v ∈ w.views := by
  by_cases hm : o.movesViews
  · cases o with
    | mapLockedPages m wc a => exact absurd rfl (ho m wc a)
    | unmapLockedPages va m => exact (exec_unmapLockedPages he v hv).1
    | unmapView base => exact (exec_unmapView he v hv).1
    | mapView off size a =>
      obtain ⟨w₁, hs, rfl⟩ := World.exec_step he
      rcases addView_cases (addView_of_mapView hs) with ⟨s, -, rfl⟩ | ⟨va, -, rfl⟩
      · exact hv
      · rcases List.mem_cons.mp hv with rfl | hv
        · cases hd
        · exact hv
    | _ => exact hm.elim
  · rw [← (World.exec_frame he).views hm]
    exact hv

/-- No view of device memory exists. -/
def World.NoDeviceView (w : World) : Prop := ∀ v ∈ w.views, v.isDevice = false

/-- While the device is restricted no step makes a view of device memory. -/
theorem step_noDeviceView {c c' : DriverConfig} (h : Reach driver anyStep c)
    (hs : Step driver restricted c c') (hnone : c.world.NoDeviceView) : c'.world.NoDeviceView := by
  have hsub : ∀ {w' : World}, w'.views ⊆ c.world.views → w'.NoDeviceView :=
    fun hv v hmem => hnone v (hv hmem)
  cases hs with
  | begins hnl hb =>
    apply hsub
    rw [Config.set_world, (begins_records hb).2.1]
    exact List.Subset.refl _
  | @exec t o k e x w hpool hallow he =>
    have hdo : MayDo t o c.world := views_sound.about h hpool trivial
    have ho : ∀ m wc a, o ≠ .mapLockedPages m wc a := fun m wc a heq => by
      have hclear := hdo.maps m wc a heq
      rw [show c.world.ctx.needsHwInit = true from hallow] at hclear
      cases hclear
    intro v hv
    cases hd : v.isDevice with
    | false => rfl
    | true => exact hd.symm.trans (hnone v (exec_deviceViews ho he hv hd))
  | @ends t w hpool he =>
    obtain rfl : w = c.world.leave t := he
    apply hsub
    have hviews : (c.world.leave t).views = c.world.views := by cases t <;> rfl
    rw [Config.set_world, hviews]
    exact List.Subset.refl _
  | env he =>
    apply hsub
    cases he with
    | exits p => exact List.Subset.refl _
    | gone p => exact fun v hv => (List.mem_filter.mp hv).1
    | buffer b => exact List.Subset.refl _

theorem run_noDeviceView {c c' : DriverConfig} (h : Reach driver anyStep c)
    (hr : Run driver restricted c c') (hnone : c.world.NoDeviceView) : c'.world.NoDeviceView := by
  have hmono : ∀ {a b : DriverConfig}, Step driver restricted a b → Step driver anyStep a b := by
    intro a b hs
    cases hs with
    | begins hnl hb => exact .begins hnl hb
    | exec hpool _ he => exact .exec hpool trivial he
    | ends hpool he => exact .ends hpool he
    | env he => exact .env he
  have key : Reach driver anyStep c' ∧ c'.world.NoDeviceView := by
    induction hr with
    | refl => exact ⟨h, hnone⟩
    | tail _ hs ih => exact ⟨ih.1.step (hmono hs), step_noDeviceView ih.1 hs ih.2⟩
  exact key.2

/-- When the reset trigger is written the device is restricted, and from then on, until
POST_RESET lifts the restriction, there is no user view of device memory: if and only if
at the trigger none is left whose record a cleanup has swept, or whose process has begun
to terminate. -/
theorem no_view_during_reset_iff {c : DriverConfig} (h : Reach driver anyStep c) {t : Tid}
    {data : List UInt8} {k : Nat → Drv Unit}
    (htrigger : c.pool t = some (.vis (.setBusData ifcTimerControlOff data) k)) :
    c.world.ctx.needsHwInit = true ∧
      ((∀ c', Run driver restricted c c' → c'.world.NoDeviceView) ↔
        ∀ v ∈ c.world.views, v.isDevice = true →
          ¬ c.world.Swept v ∧ c.world.procs v.process = .running) := by
  have hdo : MayDo t (.setBusData ifcTimerControlOff data) c.world :=
    views_sound.about h htrigger trivial
  obtain ⟨rfl, hempty, hneeds⟩ := hdo.triggers data rfl
  refine ⟨hneeds, fun hall v hv hd => ?_, fun hquiet c' hr => run_noDeviceView h hr fun v hv => ?_⟩
  · have hno := hall c .refl v hv
    rw [hd] at hno
    cases hno
  · cases hd : v.isDevice with
    | false => rfl
    | true =>
      obtain ⟨hunswept, hrun⟩ := hquiet v hv hd
      have hinv := (views_sound.good h).inv
      have hlive : c.live .ioctl := Protocol.Sound.live_of_pool htrigger
      exact absurd (hinv.swept hlive (.inl rfl) hempty ⟨hv, hrun⟩) hunswept

/-- MAP_BAR by handle 1, in process 1: the first page of BAR 0. -/
def mapRequest : Request :=
  { fileObject := some 1, requestor := some 1, inLen := 24, outLen := 16
    inBuf := fun i => if i = 17 then 0x10 else 0 }

/-- Handles 1 and 2 are opened in processes 1 and 2, and handle 1 maps a page. -/
def mapsPage : List Move :=
  cardArrives 0x10000000 ++ opens 1 1 ++ opens 2 2 ++
    [.ioctl mapRequest .mapBar 1,
      .ops .ioctl (plainOps 11 ++ [.address 0x100] ++ plainOps 3 ++ [.address 0x20000] ++ plainOps 6),
      .ends .ioctl]

/-- The queue is about to write the reset trigger. -/
def atTrigger (c : DriverConfig) : Bool :=
  match c.pool .ioctl with
  | some (.vis (.setBusData off _) _) => off == ifcTimerControlOff
  | _ => false

theorem atTrigger_spec {c : DriverConfig} (h : atTrigger c = true) :
    ∃ (data : List UInt8) (k : Nat → Drv Unit),
      c.pool .ioctl = some (.vis (.setBusData ifcTimerControlOff data) k) := by
  unfold atTrigger at h
  split at h
  · rename_i off data k hp
    obtain rfl := beq_iff_eq.mp h
    exact ⟨data, k, hp⟩
  · cases h

/-- Handle 1's cleanup is done before the reset is armed; then the request ends, and handle
2 is refused a mapping. -/
def quietReset : List Move :=
  mapsPage ++ [.cleanup 1 1, .ops (.cleanup 1) (plainOps 6), .ends (.cleanup 1)] ++ armsReset

def afterTrigger : List Move :=
  [.ops .ioctl ([.count 4] ++ plainOps 2), .ends .ioctl,
    .ioctl { mapRequest with fileObject := some 2, requestor := some 2 } .mapBar 2,
    .ops .ioctl (plainOps 4), .ends .ioctl]

def restrictedTest (_ : Tid) (_ : Op) (w : World) : Bool := w.ctx.needsHwInit

theorem restrictedTest_implies : DriverConfig.Implies restrictedTest restricted := fun _ _ _ h => h

theorem no_view_during_reset_quiet : ∃ c c' : DriverConfig, Reach driver anyStep c ∧
    atTrigger c = true ∧ Run driver restricted c c' ∧ c'.pool .ioctl = none ∧
      c.world.ctx.needsHwInit = true ∧ c'.world.NoDeviceView := by
  have hplay : (DriverConfig.play (fun _ _ _ => true) quietReset idle).any (fun c =>
      atTrigger c && (c.world.views.isEmpty &&
        (DriverConfig.play restrictedTest afterTrigger c).any fun c' => (c'.pool .ioctl).isNone)) =
      true := by decide +kernel
  obtain ⟨c, hreach, hend⟩ :=
    DriverConfig.exists_reach (DriverConfig.implies_anyStep _) hplay
  simp only [Bool.and_eq_true, List.isEmpty_iff] at hend
  obtain ⟨hat, hempty, hafter⟩ := hend
  obtain ⟨data, k, htrigger⟩ := atTrigger_spec hat
  have hquiet : ∀ v ∈ c.world.views, v.isDevice = true →
      ¬ c.world.Swept v ∧ c.world.procs v.process = .running := by simp [hempty]
  cases hc : DriverConfig.play restrictedTest afterTrigger c with
  | none => simp [hc] at hafter
  | some c' =>
    have hrun := DriverConfig.run_of_play restrictedTest_implies hc
    have hdone : c'.pool .ioctl = none := by simpa [hc] using hafter
    have hclaim := no_view_during_reset_iff hreach htrigger
    exact ⟨c, c', hreach, hat, hrun, hdone, hclaim.1, hclaim.2.mpr hquiet c' hrun⟩

/-- Handle 1's cleanup has swept its record, and not yet unmapped the page, when handle 2
arms the reset. -/
def hastyReset : List Move :=
  mapsPage ++ [.cleanup 1 1, .ops (.cleanup 1) (plainOps 1)] ++ armsReset

/-- A running process still has a view of BAR 0 when the trigger is written. -/
theorem view_during_reset :
    ¬ ∀ c : DriverConfig, Reach driver anyStep c → ∀ (data : List UInt8) (k : Nat → Drv Unit),
      c.pool .ioctl = some (.vis (.setBusData ifcTimerControlOff data) k) →
        c.world.NoDeviceView := by
  intro hclaim
  have hplay : (DriverConfig.play (fun _ _ _ => true) hastyReset idle).any (fun c =>
      atTrigger c && c.world.views.any fun v => v.isDevice && c.world.procs v.process == .running) =
      true := by decide +kernel
  obtain ⟨c, hreach, hend⟩ :=
    DriverConfig.exists_reach (DriverConfig.implies_anyStep _) hplay
  simp only [Bool.and_eq_true, List.any_eq_true] at hend
  obtain ⟨hat, v, hv, hd, -⟩ := hend
  obtain ⟨data, k, htrigger⟩ := atTrigger_spec hat
  have hno := hclaim c hreach data k htrigger v hv
  rw [hd] at hno
  cases hno

/-! ## No user view outlives the hardware -/

/-- After its revocation ReleaseHardware finds nothing listed. -/
theorem emptied_of_release {c : DriverConfig} (h : Reach driver anyStep c)
    (hreleases : c.world.started = false) {p : Drv Unit} (hp : c.pool .hardware = some p)
    (hpast : ∀ o k, p = .vis o k → ¬ o.ofRevocation) :
    c.live .hardware ∧ c.world.Emptied .hardware := by
  refine ⟨Protocol.Sound.live_of_pool hp, ?_⟩
  cases p with
  | vis o k =>
    have hdo : MayDo .hardware o c.world := views_sound.about h hp trivial
    exact hdo.revoked rfl hreleases (hpast o k rfl)
  | pure u =>
    have hpost := (views_sound.good h).safe .hardware _ hp c.world (Untouched.refl _ _)
    exact ⟨hpost.2 rfl hreleases, hpost.1.none⟩

/-- When ReleaseHardware calls `TtWindSysmemFree`, no user view of the buffer is left in a
running process, and when it returns none of a BAR is: in each case if and only if no
cleanup has swept the record of such a view and not yet destroyed it. -/
theorem no_view_outlives_release_iff {c : DriverConfig} (h : Reach driver anyStep c)
    (hreleases : c.world.started = false) :
    (∀ k : Unit → Drv Unit, c.pool .hardware = some (sysmemFree >>= k) →
      ((∀ v, c.world.Shown v → v.isDevice = true) ↔
        ∀ v, c.world.Shown v → v.isDevice = false → ¬ c.world.Swept v)) ∧
    (c.pool .hardware = some (.pure ()) →
      ((∀ v, c.world.Shown v → v.isDevice = false) ↔
        ∀ v, c.world.Shown v → v.isDevice = true → ¬ c.world.Swept v)) := by
  have hinv := (views_sound.good h).inv
  -- at such a moment a view in a running process is one a cleanup has swept
  have hkey : c.live .hardware ∧ c.world.Emptied .hardware → ∀ b : Bool,
      ((∀ v, c.world.Shown v → v.isDevice = b) ↔
        ∀ v, c.world.Shown v → v.isDevice = !b → ¬ c.world.Swept v) := by
    rintro ⟨hlive, hempty⟩ b
    constructor
    · intro hall v hv hd _
      rw [hall v hv] at hd
      simp at hd
    · intro hquiet v hv
      by_contra hne
      have hd : v.isDevice = !b := by
        cases hv' : v.isDevice <;> cases b <;> simp_all
      exact hquiet v hv hd (hinv.swept hlive (.inr rfl) hempty hv)
  constructor
  · intro k hp
    refine hkey (emptied_of_release h hreleases hp fun o k' heq => ?_) true
    injection heq with ho
    exact ho ▸ id
  · intro hp
    exact hkey (emptied_of_release h hreleases hp fun o k heq => nomatch heq) false

/-- ReleaseHardware with handle 1's page still mapped, up to the call of
`TtWindSysmemFree`. -/
def releasesToFree : List Move := mapsPage ++ [.release 0, .ops .hardware (plainOps 24)]

/-- What ReleaseHardware does after the buffer is free. -/
def afterFree : Drv Unit := do
  acquire .state
  releasePtr (·.tlbRegs) (fun c => { c with tlbRegs := none }) tlbRegsLen
  release .state
  releaseBusInterface
  store fun c => { c with barCount := 0, bars := fun _ => {} }

theorem no_view_outlives_release_alone :
    (∃ c : DriverConfig, Reach driver anyStep c ∧ c.world.started = false ∧
      c.pool .hardware = some (sysmemFree >>= fun _ => afterFree) ∧
      ∀ v, c.world.Shown v → v.isDevice = true) ∧
    ∃ c : DriverConfig, Reach driver anyStep c ∧ c.world.started = false ∧
      c.pool .hardware = some (.pure ()) ∧ ∀ v, c.world.Shown v → v.isDevice = false := by
  constructor
  · have hplay : (DriverConfig.play (fun _ _ _ => true) releasesToFree idle).map (fun c =>
        (c.pool .hardware, c.world.views, c.world.started)) =
        some (some (sysmemFree >>= fun _ => afterFree), [], false) := rfl
    obtain ⟨c, hc, hend⟩ := Option.map_eq_some_iff.mp hplay
    have hreach := DriverConfig.reach_of_play (DriverConfig.implies_anyStep _) hc
    simp only [Prod.mk.injEq] at hend
    obtain ⟨hp, hviews, hst⟩ := hend
    refine ⟨c, hreach, hst, hp, ((no_view_outlives_release_iff hreach hst).1 _ hp).mpr ?_⟩
    intro v hv
    simp [World.Shown, hviews] at hv
  · have hplay : (DriverConfig.play (fun _ _ _ => true)
        (releasesToFree ++ [.ops .hardware (plainOps 13)]) idle).map (fun c =>
        (c.pool .hardware, c.world.views, c.world.started)) = some (some (.pure ()), [], false) := rfl
    obtain ⟨c, hc, hend⟩ := Option.map_eq_some_iff.mp hplay
    have hreach := DriverConfig.reach_of_play (DriverConfig.implies_anyStep _) hc
    simp only [Prod.mk.injEq] at hend
    obtain ⟨hp, hviews, hst⟩ := hend
    refine ⟨c, hreach, hst, hp, ((no_view_outlives_release_iff hreach hst).2 hp).mpr ?_⟩
    intro v hv
    simp [World.Shown, hviews] at hv

/-- Handle 1's cleanup has swept its record, and not yet unmapped the page, when
ReleaseHardware runs from beginning to end. -/
def hastyRelease : List Move :=
  mapsPage ++ [.cleanup 1 1, .ops (.cleanup 1) (plainOps 1), .release 0, .ops .hardware (plainOps 29)]

/-- ReleaseHardware has returned, and a running process still has a view of BAR 0. -/
theorem view_outlives_release :
    ¬ ∀ c : DriverConfig, Reach driver anyStep c → c.world.started = false →
      c.pool .hardware = some (.pure ()) → ∀ v, c.world.Shown v → v.isDevice = false := by
  intro hclaim
  have hplay : (DriverConfig.play (fun _ _ _ => true) hastyRelease idle).map (fun c =>
      (c.pool .hardware, c.world.started, c.world.views.any fun v =>
        v.isDevice && c.world.procs v.process == .running)) = some (some (.pure ()), false, true) := rfl
  obtain ⟨c, hc, hend⟩ := Option.map_eq_some_iff.mp hplay
  have hreach := DriverConfig.reach_of_play (DriverConfig.implies_anyStep _) hc
  simp only [Prod.mk.injEq, List.any_eq_true, Bool.and_eq_true, beq_iff_eq] at hend
  obtain ⟨hp, hst, v, hv, hd, hrun⟩ := hend
  have hno := hclaim c hreach hst hp v ⟨hv, hrun⟩
  rw [hd] at hno
  cases hno

end TtWind
