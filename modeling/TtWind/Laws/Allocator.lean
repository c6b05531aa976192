import TtWind.Effect.Rely
import TtWind.Laws.Frame
import TtWind.Laws.Programs
import TtWind.Laws.Schedule
import TtWind.Laws.Sections

/-!
# The window allocator and the mapping list

Bitmap, owner table and mapping list agree in every reachable state. Each
section of code under StateLock preserves the agreement; only RESET_DEVICE's
generation fence needs a precondition, an empty mapping list, which its busy
check establishes and no other thread undoes.
-/

set_option autoImplicit false

namespace TtWind

open TtWind.Effect TtWind.Effect.Prog TtWind.Effect.Protocol

/-- Bitmap, owner table and mapping list agree. -/
structure DeviceContext.AllocatorInv (c : DeviceContext) : Prop where
  bitmap : ∀ i, c.tlbBitmap i = true ↔ c.tlbOwner i ≠ none ∨ i = kernelTlbIndex
  kernel : c.tlbOwner kernelTlbIndex = none
  range : ∀ i, c.tlbOwner i ≠ none → i < tlb2mCount
  records : ∀ m ∈ c.mappingList, 0 ≤ m.tlbId → c.tlbOwner m.tlbId.toNat = some m.fileObject

namespace DeviceContext.AllocatorInv

variable {c : DeviceContext} (h : c.AllocatorInv)

include h

/-- An owned window is a user window. -/
theorem user_of_owned {i : Nat} (hi : c.tlbOwner i ≠ none) : i < kernelTlbIndex := by
  have hr := h.range i hi
  have hk : i ≠ kernelTlbIndex := fun he => hi (he ▸ h.kernel)
  simp only [kernelTlbIndex, tlb2mCount] at *
  omega

theorem congr {c' : DeviceContext} (hl : c'.mappingList = c.mappingList)
    (ho : c'.tlbOwner = c.tlbOwner) (hb : c'.tlbBitmap = c.tlbBitmap) : c'.AllocatorInv where
  bitmap := by rw [ho, hb]; exact h.bitmap
  kernel := by rw [ho]; exact h.kernel
  range := by rw [ho]; exact h.range
  records := by rw [ho, hl]; exact h.records

/-- Removing records keeps the agreement. -/
theorem of_subset {ms : List UserMapping} (hs : ∀ m ∈ ms, m ∈ c.mappingList) :
    ({ c with mappingList := ms } : DeviceContext).AllocatorInv :=
  ⟨h.bitmap, h.kernel, h.range, fun m hm => h.records m (hs m hm)⟩

theorem insertTail {m : UserMapping}
    (hm : 0 ≤ m.tlbId → c.tlbOwner m.tlbId.toNat = some m.fileObject) :
    (c.insertTail m).AllocatorInv := by
  refine ⟨h.bitmap, h.kernel, h.range, fun m' hm' h0 => ?_⟩
  rcases List.mem_append.mp hm' with hm' | hm'
  · exact h.records m' hm' h0
  · obtain rfl := List.mem_singleton.mp hm'
    exact hm h0

/-- Handing a window with a clear bit to a handle. -/
theorem allocate {i : Nat} (hi : i < tlb2mCount) (hb : c.tlbBitmap i = false) (fo : FileObject) :
    ({ c with
        tlbBitmap := Function.update c.tlbBitmap i true
        tlbOwner := Function.update c.tlbOwner i (some fo) } : DeviceContext).AllocatorInv := by
  have hfree : ¬ (c.tlbOwner i ≠ none ∨ i = kernelTlbIndex) := by
    rw [← h.bitmap i, hb]
    exact Bool.false_ne_true
  have hnone : c.tlbOwner i = none := by
    by_contra hn
    exact hfree (.inl hn)
  refine ⟨fun j => ?_, ?_, fun j hj => ?_, fun m hm h0 => ?_⟩
  · by_cases hj : j = i
    · subst hj
      simp only [Function.update_self, ne_eq, reduceCtorEq, not_false_eq_true, true_or]
    · simp only [Function.update_of_ne hj]
      exact h.bitmap j
  · have hne : kernelTlbIndex ≠ i := fun he => hfree (.inr he.symm)
    simp only [Function.update_of_ne hne]
    exact h.kernel
  · by_cases he : j = i
    · exact he ▸ hi
    · simp only [Function.update_of_ne he] at hj
      exact h.range j hj
  · have howner := h.records m hm h0
    have hne : m.tlbId.toNat ≠ i := fun he => by simp [← he, howner] at hnone
    simp only [Function.update_of_ne hne]
    exact howner

/-- Taking a user window no listed record is backed by from its owner. -/
theorem free {i : Nat} (hi : i ≠ kernelTlbIndex)
    (hm : ∀ m ∈ c.mappingList, m.tlbId ≠ (i : Int)) :
    ({ c with
        tlbOwner := Function.update c.tlbOwner i none
        tlbBitmap := Function.update c.tlbBitmap i false } : DeviceContext).AllocatorInv := by
  refine ⟨fun j => ?_, ?_, fun j hj => ?_, fun m hmem h0 => ?_⟩
  · by_cases hj : j = i
    · subst hj
      simp only [Function.update_self, Bool.false_eq_true, ne_eq, not_true_eq_false, false_or, hi]
    · simp only [Function.update_of_ne hj]
      exact h.bitmap j
  · simp only [Function.update_of_ne (Ne.symm hi)]
    exact h.kernel
  · by_cases he : j = i
    · subst he; simp at hj
    · simp only [Function.update_of_ne he] at hj
      exact h.range j hj
  · have hne : m.tlbId.toNat ≠ i := fun he => hm m hmem (by omega)
    simp only [Function.update_of_ne hne]
    exact h.records m hmem h0

omit h in
/-- No records, and every window reclaimed. -/
theorem reclaimed (hl : c.mappingList = []) (hr : ∀ i, c.tlbOwner i ≠ none → i < tlb2mCount) :
    c.reclaimTlbs.AllocatorInv := by
  have hnone : ∀ i, c.reclaimTlbs.tlbOwner i = none := by
    intro i
    by_cases hi : i < tlb2mCount
    · simp only [reclaimTlbs, hi, if_true]
    · simp only [reclaimTlbs, hi, if_false]
      by_contra hn
      exact hi (hr i hn)
  refine ⟨fun i => ?_, hnone _, fun i hi => absurd (hnone i) hi, fun m hm => ?_⟩
  · rw [hnone]
    simp [reclaimTlbs]
  · rw [show c.reclaimTlbs.mappingList = [] from hl] at hm
    cases hm

end DeviceContext.AllocatorInv

/-! ## The sections -/

/-- What a section needs for the agreement to survive it. -/
def Section.Fenced (c : DeviceContext) : Section → Prop
  | .fence => c.mappingList = []
  | .appendMapping m => m.tlbId < 0
  | _ => True

/-- Every section preserves the agreement. -/
theorem Section.run_allocatorInv {c : DeviceContext} (h : c.AllocatorInv) (s : Section)
    (hs : s.Fenced c) : (s.run c).2.AllocatorInv := by
  cases s with
  | anyMapping => exact h
  | fence =>
    exact (DeviceContext.AllocatorInv.reclaimed hs h.range).congr rfl rfl rfl
  | insertMapping m =>
    simp only [run]
    split
    · exact h
    · rename_i hm
      exact h.insertTail fun h0 => by_contra fun hn => hm ⟨h0, hn⟩
  | appendMapping m => exact h.insertTail fun h0 => absurd h0 (Int.not_le.mpr hs)
  | takeMapping fo va =>
    simp only [run]
    split
    · exact h
    · exact h.of_subset fun m hm => List.mem_of_mem_eraseP hm
  | sweepFile fo =>
    refine ⟨fun i => ?_, ?_, fun i hi => ?_, fun m hm h0 => ?_⟩
    · by_cases hi : i < tlb2mCount ∧ c.tlbOwner i = some fo
      · have hk : i ≠ kernelTlbIndex := fun he => by simp [he, h.kernel] at hi
        simp [run, hi, hk]
      · simp only [run, hi, if_false]
        exact h.bitmap i
    · simp only [run, h.kernel, reduceCtorEq, and_false, if_false]
    · simp only [run] at hi
      split at hi
      · exact absurd rfl hi
      · exact h.range i hi
    · obtain ⟨hmem, hne⟩ := List.mem_filter.mp hm
      have howner := h.records m hmem h0
      have hfo : m.fileObject ≠ fo := by simpa using hne
      simp only [run, howner, Option.some.injEq, hfo, and_false, if_false]
  | sweepAll =>
    exact (DeviceContext.AllocatorInv.reclaimed (c := { c with mappingList := [] }) rfl h.range)
  | allocateTlb fo =>
    simp only [run]
    split
    · exact h
    · rename_i id hid
      obtain ⟨hi, hb⟩ := findClearBit_some hid
      exact h.allocate hi hb fo
  | freeTlb fo id =>
    simp only [run]
    split
    · exact h
    · rename_i howner
      split
      · exact h
      · rename_i hmap
        refine h.free (fun he => ?_) fun m hm he => hmap ?_
        · have hk : c.tlbOwner 201 = none := h.kernel
          simp [he, DeviceContext.checkTlbOwner, hk, tlb2mCount, kernelTlbIndex] at howner
        · simp only [DeviceContext.tlbHasMappings, List.any_eq_true]
          exact ⟨m, hm, by simp [he]⟩
  | checkTlbOwner fo id => exact h

/-! ## The whole system -/

/-- The protocol of the tables: the other threads only ever remove records. -/
def allocator : Protocol DriverSig Tid World where
  pre _ o _ := o.KeepsTables
  inv _ w := w.ctx.AllocatorInv
  rely t w w' := t = .ioctl → w.ctx.mappingList = [] → w'.ctx.mappingList = []
  guar t w w' := t ≠ .ioctl → w.ctx.mappingList = [] → w'.ctx.mappingList = []

theorem allocator_steady : allocator.Steady where
  refl _ _ _ h := h
  trans _ _ _ _ h₁ h₂ ht h := h₂ ht (h₁ ht h)

/-- Sections that insert no record. -/
def Section.Removes : Section → Prop
  | .insertMapping _ | .appendMapping _ => False
  | _ => True

theorem Section.run_nil {c : DeviceContext} {s : Section} (hs : s.Removes)
    (hc : c.mappingList = []) : (s.run c).2.mappingList = [] := by
  apply List.eq_nil_iff_forall_not_mem.mpr
  intro m hm
  rcases Section.mem_of_run hm with hm | rfl | ⟨rfl, -⟩
  · rw [hc] at hm
    cases hm
  · exact hs
  · exact hs

/-- Operations of a thread that keep the agreement in every state. -/
def allocatorFoot (t : Tid) : Op → Prop
  | .store f => TableFrame f
  | .locked s => (∀ c, s.Fenced c) ∧ (t ≠ .ioctl → s.Removes)
  | _ => True

theorem exec_allocator {t : Tid} {o : Op} {e : Choice} {w w' : World} {x : o.Ans}
    (ho : allocatorFoot t o) (h : w.ctx.AllocatorInv) (he : w.exec t o e = some (x, w')) :
    w'.ctx.AllocatorInv ∧ allocator.guar t w w' := by
  have hctx := (World.exec_frame he).ctx
  cases o with
  | store f =>
    obtain ⟨hl, howner, hb, -⟩ := ho w.ctx
    rw [hctx]
    exact ⟨h.congr hl howner hb, fun _ hnil => by rw [hctx]; exact hl.trans hnil⟩
  | locked s =>
    rw [hctx]
    refine ⟨Section.run_allocatorInv h s (ho.1 _), fun ht hnil => ?_⟩
    rw [hctx]
    exact Section.run_nil (ho.2 ht) hnil
  | _ => exact ⟨hctx ▸ h, fun _ hnil => hctx ▸ hnil⟩

/-- A program within the footprint keeps the protocol. -/
theorem allocator_keeps {t : Tid} {K : Op → Prop} {α : Type} {p : Drv α} (hp : p.Only K)
    (hK : ∀ o, K o → allocatorFoot t o) :
    allocator.Keeps driverMachine t (fun _ => True) p :=
  Keeps.of_within (Stable.true t)
    (fun o ho _ _ _ => by cases o <;> first | exact hK _ ho | trivial)
    (fun o ho _ _ _ _ _ _ _ hi _ he =>
      let ⟨hinv, hg⟩ := exec_allocator (hK o ho) hi he
      ⟨hinv, hg, trivial, trivial⟩) hp

theorem deviceFoot_allocator {l : Lock} {t : Tid} {o : Op} (h : deviceFoot l o) :
    allocatorFoot t o := by
  cases o <;> first | trivial | exact ArcFrame.table h

theorem handleFoot_allocator {fileObject : Option FileObject} {o : Op}
    (h : handleFoot fileObject o) : allocatorFoot .ioctl o := by
  cases o with
  | locked s =>
    refine ⟨fun c => ?_, fun hn => absurd rfl hn⟩
    cases s with
    | fence => exact (h : False).elim
    | appendMapping m =>
      have hm : m.tlbId = -1 := h.2
      show m.tlbId < 0
      omega
    | _ => trivial
  | store f => exact (h : False).elim
  | _ => trivial

theorem ioctlFoot_allocator {fileObject : Option FileObject} {o : Op}
    (h : ioctlFoot fileObject o) : allocatorFoot .ioctl o := by
  rcases h with h | ⟨l, h⟩ | h
  · exact handleFoot_allocator h
  · exact deviceFoot_allocator h
  · cases o <;> first | trivial | exact ResetFrame.table h

theorem hardwareFoot_allocator {o : Op} (h : hardwareFoot o) : allocatorFoot .hardware o := by
  cases o with
  | locked s =>
    obtain rfl : s = .sweepAll := h
    exact ⟨fun _ => trivial, fun _ => trivial⟩
  | store f => exact HardwareFrame.table h
  | _ => trivial

theorem cleanupFoot_allocator {fo : FileObject} {o : Op} (h : cleanupFoot fo o) :
    allocatorFoot (.cleanup fo) o := by
  cases o with
  | locked s =>
    obtain rfl : s = .sweepFile fo := h
    exact ⟨fun _ => trivial, fun _ => trivial⟩
  | store f => exact (h : False).elim
  | _ => trivial

theorem createFoot_allocator {fo : FileObject} {o : Op} (h : createFoot o) :
    allocatorFoot (.create fo) o := by
  cases o <;> trivial

/-! ## RESET_DEVICE: from the busy check to the fence -/

theorem stable_nil : allocator.Stable .ioctl fun w => w.ctx.mappingList = [] :=
  fun _ _ hr h => hr rfl h

/-- Operations of RESET_DEVICE after its busy check, the fence among them. -/
theorem resetFoot_keeps_nil {α : Type} {p : Drv α} (hp : p.Only (resetFoot Section.IsFence)) :
    allocator.Keeps driverMachine .ioctl (fun w => w.ctx.mappingList = []) p := by
  refine Keeps.of_within stable_nil
    (fun o ho _ _ _ => by cases o <;> first | exact ResetFrame.table ho | trivial) ?_ hp
  intro o ho w L e x w' hnil _ hinv _ he
  have hctx := (World.exec_frame he).ctx
  have key : w'.ctx.AllocatorInv ∧ w'.ctx.mappingList = [] := by
    rw [hctx]
    cases o with
    | store f =>
      obtain ⟨hl, howner, hb, -⟩ := ResetFrame.table ho w.ctx
      exact ⟨hinv.congr hl howner hb, hl.trans hnil⟩
    | locked s =>
      cases s with
      | fence => exact ⟨Section.run_allocatorInv hinv _ hnil, hnil⟩
      | _ => exact (ho : False).elim
    | _ => exact ⟨hinv, hnil⟩
  exact ⟨key.1, fun hn => absurd rfl hn, key.2, trivial⟩

theorem ioctlResetDevice_keeps (fileObject : Option FileObject) :
    allocator.Keeps driverMachine .ioctl (fun _ => True) (ioctlResetDevice fileObject) := by
  have hplain : ∀ {α : Type} {p : Drv α}, p.Only Op.plain →
      allocator.Keeps driverMachine .ioctl (fun _ => True) p :=
    fun hp => allocator_keeps hp fun o h => by cases o <;> trivial
  have hop : ∀ o : Op, o.plain →
      allocator.Keeps driverMachine .ioctl (fun _ => True) (op o) :=
    fun o ho => hplain ((within_perform _).mpr ho)
  refine Keeps.bind allocator_steady (hop _ trivial) fun status => ?_
  split
  · exact hplain trivial
  refine Keeps.bind allocator_steady (hplain ⟨trivial, fun _ _ => trivial⟩) fun flags => ?_
  refine Keeps.bind allocator_steady (hplain ⟨trivial, fun _ _ => trivial⟩) fun reserved => ?_
  split
  · exact hplain trivial
  refine Keeps.bind allocator_steady (hop _ trivial) fun c => ?_
  split
  · exact hplain trivial
  -- the busy check: if it answers no, the list is empty and stays so
  refine Triple.vis (I := fun busy w => busy = false → w.ctx.mappingList = [])
    (Stable.true _) (fun _ _ _ => trivial) ?_ fun busy => ?_
  · intro w L e x w' _ _ hinv _ he
    have hctx : w'.ctx = w.ctx := (World.exec_frame he).ctx
    have hinv' : w'.ctx.AllocatorInv := hctx ▸ hinv
    obtain ⟨w₁, hs, rfl⟩ := World.exec_step he
    refine ⟨hinv', fun hn => absurd rfl hn, fun hx => ?_⟩
    simp only [World.step, Section.run, Option.ite_none_right_eq_some, Option.some.injEq,
      Prod.mk.injEq] at hs
    rw [← hs.2.1] at hx
    rw [hctx]
    simpa using hx
  · cases busy with
    | true => exact Triple.weaken (hplain trivial) (fun _ _ => trivial) fun _ _ _ => trivial
    | false =>
      refine Triple.weaken (P := fun w => w.ctx.mappingList = [])
        (Q := fun _ w => w.ctx.mappingList = []) ?_ (fun _ h => h rfl) fun _ _ _ => trivial
      refine resetFoot_keeps_nil (Within.perform_bind rfl fun _ _ => ?_)
      have harm : (armReset fileObject).Only (resetFoot Section.IsFence) :=
        armReset_only (configScope_resetFoot (G := Section.IsFence)) trivial (fun _ _ => trivial)
          fileObject
      exact harm.bind fun _ => ⟨rfl, fun _ _ => trivial⟩

theorem evtIoDeviceControl_allocator (fileObject : Option FileObject) (code : Ioctl) :
    allocator.Keeps driverMachine .ioctl (fun _ => True) (evtIoDeviceControl fileObject code) := by
  refine evtIoDeviceControl_keeps allocator_steady
    (fun hp => allocator_keeps hp fun o h => by cases o <;> trivial) fileObject code ?_
  by_cases hcode : code = .resetDevice
  · subst hcode
    exact Keeps.bind allocator_steady (ioctlResetDevice_keeps fileObject) fun _ =>
      Keeps.pure (Stable.true _)
  · exact allocator_keeps (ioctlHandler_only fileObject hcode) fun _ => ioctlFoot_allocator

/-- Each call keeps the protocol. -/
theorem begins_allocator {L : Tid → Prop} {t : Tid} {p : Drv Unit} {w w' : World}
    (h : Begins L t p w w') : allocator.Keeps driverMachine t (fun _ => True) p := by
  cases h with
  | ioctl r code => exact evtIoDeviceControl_allocator r.fileObject code
  | power cb => exact allocator_keeps (power_only cb) fun _ ho => deviceFoot_allocator (arcFoot_of_powerFoot ho)
  | prepare resources =>
    exact allocator_keeps ((evtDevicePrepareHardware_only resources).bind fun _ => trivial)
      fun _ ho => hardwareFoot_allocator (hardwareFoot_of_prepare ho)
  | release => exact allocator_keeps evtDeviceReleaseHardware_only fun _ => hardwareFoot_allocator
  | create fo => exact allocator_keeps (evtDeviceFileCreate_only fo) fun _ => createFoot_allocator
  | cleanup fo => exact allocator_keeps (evtFileCleanup_only fo) fun _ => cleanupFoot_allocator

theorem initial_allocatorInv : ({} : DeviceContext).AllocatorInv where
  bitmap i := by simp
  kernel := rfl
  range i hi := absurd rfl hi
  records m hm := by cases hm

theorem allocator_sound : allocator.Sound driver where
  toSteady := allocator_steady
  initial w hw := by
    obtain ⟨buffer, rfl⟩ := hw
    exact initial_allocatorInv
  compat L t t' w w' _ _ hne _ _ hg ht' := hg fun ht => hne (ht.trans ht'.symm)
  begins L t p w w' hb _ hinv _ := by
    have hctx := begins_ctx hb
    have hinv' : w'.ctx.AllocatorInv := hctx ▸ hinv
    exact ⟨hinv', fun _ _ _ h => hctx ▸ h, begins_allocator hb w' trivial⟩
  ends L t w w' he _ hinv _ _ := by
    obtain rfl : w' = w.leave t := he
    have hctx := w.leave_ctx t
    have hinv' : (w.leave t).ctx.AllocatorInv := hctx ▸ hinv
    exact ⟨hinv', fun _ _ _ h => hctx ▸ h⟩
  env L w w' he hinv _ := by
    have hctx := environment_ctx he
    have hinv' : w'.ctx.AllocatorInv := hctx ▸ hinv
    exact ⟨hinv', fun _ _ _ h => hctx ▸ h⟩

/-- Bitmap, owner table and mapping list agree in every reachable state. -/
theorem reach_allocatorInv {c : Config DriverSig Tid World} (h : Reach driver anyStep c) :
    c.world.ctx.AllocatorInv := (allocator_sound.good h).inv

/-! ## Consequences -/

/-- A section hands a window to a handle only when nobody owns it. -/
theorem Section.run_owner {c : DeviceContext} (h : c.AllocatorInv) (s : Section) {i : Nat}
    {fo fo' : FileObject} (ho : c.tlbOwner i = some fo)
    (ho' : (s.run c).2.tlbOwner i = some fo') : fo' = fo := by
  rcases Section.owner_of_run ho' with ho' | ⟨-, hclear⟩
  · exact Option.some.inj (ho'.symm.trans ho)
  · have hset := (h.bitmap i).mpr (.inl (by simp [ho]))
    simp [(findClearBit_some hclear).2] at hset

/-- A window passes from one handle to another only by way of being unowned. -/
theorem step_owner {c c' : Config DriverSig Tid World} (h : Reach driver anyStep c)
    (hs : Step driver anyStep c c') {i : Nat} {fo fo' : FileObject}
    (ho : c.world.ctx.tlbOwner i = some fo) (ho' : c'.world.ctx.tlbOwner i = some fo') :
    fo' = fo := by
  have hsame : c'.world.ctx.tlbOwner = c.world.ctx.tlbOwner → fo' = fo := fun he =>
    Option.some.inj (ho'.symm.trans ((congrFun he i).trans ho))
  cases hs with
  | begins _ hb => exact hsame (congrArg DeviceContext.tlbOwner (begins_ctx hb))
  | ends _ he => exact hsame (by rw [show _ = World.leave _ _ from he]; simp)
  | env he => exact hsame (congrArg DeviceContext.tlbOwner (environment_ctx he))
  | @exec t o k e x w hp ha he =>
    have hctx := (World.exec_frame he).ctx
    cases o with
    | store f =>
      have hpre : TableFrame f := allocator_sound.about h hp ha
      exact hsame ((congrArg DeviceContext.tlbOwner hctx).trans (hpre _).2.1)
    | locked s =>
      exact Section.run_owner (reach_allocatorInv h) s ho
        ((congrArg (fun c => c.tlbOwner i) hctx).symm.trans ho')
    | _ => exact hsame (congrArg DeviceContext.tlbOwner hctx)

/-- Plain operations leave the device context. -/
theorem solo_plain_ctx {t : Tid} {α : Type} {p : Drv α} (hp : p.Only Op.plain) {w w' : World}
    {a : α} (h : Solo driverMachine t p w a w') : w'.ctx = w.ctx := by
  refine Solo.keeps (F := fun w w' => w'.ctx = w.ctx) (fun _ => rfl)
    (fun {u v w} (h₁ : v.ctx = u.ctx) (h₂ : w.ctx = v.ctx) => h₂.trans h₁)
    (fun o ho {e w x w₁} he => ?_) hp h
  have hctx := (World.exec_frame (o := o) he).ctx
  cases o <;> first | exact hctx | exact (ho : False).elim

/-- Retrieving a buffer answers one of two statuses. -/
theorem exec_inputBuffer {t : Tid} {len : Nat} {e : Choice} {w w' : World} {s : NtStatus}
    (h : w.exec t (.inputBuffer len) e = some (s, w')) : s = .bufferTooSmall ∨ s = .success := by
  obtain ⟨w₁, hs, -⟩ := World.exec_step h
  simp only [World.step, Option.some.injEq, Prod.mk.injEq] at hs
  rw [← hs.1]
  split <;> simp

theorem exec_outputBuffer {t : Tid} {len : Nat} {e : Choice} {w w' : World} {s : NtStatus}
    (h : w.exec t (.outputBuffer len) e = some (s, w')) : s = .bufferTooSmall ∨ s = .success := by
  obtain ⟨w₁, hs, -⟩ := World.exec_step h
  simp only [World.step, Option.some.injEq, Prod.mk.injEq] at hs
  rw [← hs.1]
  split <;> simp

/-- ALLOCATE_TLB answers INSUFFICIENT_RESOURCES only when its section finds no clear bit. -/
theorem ioctlAllocateTlb_full {t : Tid} {fo : FileObject} {w w' : World} {n : Nat}
    (h : Solo driverMachine t (ioctlAllocateTlb (some fo)) w (.insufficientResources, n) w') :
    Section.findClearBit w.ctx.tlbBitmap = none := by
  obtain ⟨s₁, w₁, h₁, h⟩ := Solo.bind_iff.mp h
  obtain ⟨e₁, he₁⟩ := World.solo_op h₁
  split at h
  · obtain ⟨heq, -⟩ := Solo.pure_iff.mp h
    rcases exec_inputBuffer he₁ with rfl | rfl <;> simp at heq
  obtain ⟨s₂, w₂, h₂, h⟩ := Solo.bind_iff.mp h
  obtain ⟨e₂, he₂⟩ := World.solo_op h₂
  split at h
  · obtain ⟨heq, -⟩ := Solo.pure_iff.mp h
    rcases exec_outputBuffer he₂ with rfl | rfl <;> simp at heq
  obtain ⟨size, w₃, h₃, h⟩ := Solo.bind_iff.mp h
  split at h
  · obtain ⟨heq, -⟩ := Solo.pure_iff.mp h
    simp at heq
  obtain ⟨id, w₄, h₄, h⟩ := Solo.bind_iff.mp h
  obtain ⟨e₄, he₄⟩ := World.solo_op h₄
  cases id with
  | some id =>
    obtain ⟨_, w₅, -, h⟩ := Solo.bind_iff.mp h
    obtain ⟨_, w₆, -, h⟩ := Solo.bind_iff.mp h
    obtain ⟨heq, -⟩ := Solo.pure_iff.mp h
    simp at heq
  | none =>
    have hctx : w₃.ctx = w.ctx := (solo_plain_ctx (by exact ⟨trivial, fun _ _ => trivial⟩) h₃).trans
      ((World.exec_frame he₂).ctx.trans (World.exec_frame he₁).ctx)
    obtain ⟨w₅, hs, -⟩ := World.exec_step he₄
    simp only [World.step, Option.ite_none_right_eq_some, Option.some.injEq, Prod.mk.injEq] at hs
    have hans := hs.2.1
    rw [hctx] at hans
    simp only [Section.run] at hans
    split at hans
    · assumption
    · cases hans

/-- With no clear bit every user window is owned. -/
theorem DeviceContext.AllocatorInv.all_owned {c : DeviceContext} (h : c.AllocatorInv)
    (hfull : Section.findClearBit c.tlbBitmap = none) :
    ∀ i < kernelTlbIndex, c.tlbOwner i ≠ none := by
  intro i hi
  have hb := findClearBit_none hfull i (Nat.lt_succ_of_lt hi)
  rcases (h.bitmap i).mp hb with ho | he
  · exact ho
  · exact absurd he (Nat.ne_of_lt hi)

/-- The section finds no window only when all 201 user windows are owned. -/
theorem allocateTlb_full {c c' : DriverConfig} {t : Tid} {fo : FileObject} (h : Reach driver anyStep c)
    (hown : Own driver anyStep t (.locked (.allocateTlb fo)) none c c') :
    ∀ i < kernelTlbIndex, c.world.ctx.tlbOwner i ≠ none := by
  cases hown with
  | exec hp ha he =>
    obtain ⟨w₁, hs, -⟩ := World.exec_step he
    simp only [World.step, Option.ite_none_right_eq_some, Option.some.injEq, Prod.mk.injEq] at hs
    refine (reach_allocatorInv h).all_owned ?_
    have hnone := hs.2.1
    simp only [Section.run] at hnone
    split at hnone
    · assumption
    · cases hnone

/-- A call of ALLOCATE_TLB that returns INSUFFICIENT_RESOURCES, its buffers being there or too small, has found no
window. -/
theorem ioctlAllocateTlb_ran_out {fo : FileObject} {evs : List Event} {n : Nat}
    (h : (ioctlAllocateTlb (some fo)).Leads evs (.pure (.insufficientResources, n)))
    (hin : ∀ len s, (⟨.inputBuffer len, s⟩ : Event) ∈ evs → s = .bufferTooSmall ∨ s = .success)
    (hout : ∀ len s, (⟨.outputBuffer len, s⟩ : Event) ∈ evs → s = .bufferTooSmall ∨ s = .success) :
    (⟨.locked (.allocateTlb fo), none⟩ : Event) ∈ evs := by
  obtain ⟨s₁, e₁, rfl, h₁⟩ := leads_perform_bind.mp h
  split at h₁
  · obtain ⟨rfl, heq⟩ := leads_pure.mp h₁
    rcases hin 8 s₁ (by simp) with rfl | rfl <;> simp at heq
  obtain ⟨s₂, e₂, rfl, h₂⟩ := leads_perform_bind.mp h₁
  split at h₂
  · obtain ⟨rfl, heq⟩ := leads_pure.mp h₂
    rcases hout 8 s₂ (by simp) with rfl | rfl <;> simp at heq
  obtain ⟨size, e₃, e₄, rfl, -, h₃⟩ := leads_bind.mp h₂
  split at h₃
  · obtain ⟨-, heq⟩ := leads_pure.mp h₃
    simp at heq
  obtain ⟨id, e₅, rfl, h₄⟩ := leads_perform_bind.mp h₃
  cases id with
  | some id =>
    obtain ⟨_, e₆, rfl, h₅⟩ := leads_perform_bind.mp h₄
    obtain ⟨_, e₇, e₈, rfl, -, h₆⟩ := leads_bind.mp h₅
    obtain ⟨-, heq⟩ := leads_pure.mp h₆
    simp at heq
  | none => simp

/-- In any run, where a call of ALLOCATE_TLB has returned INSUFFICIENT_RESOURCES, there was a moment of the call at
which all 201 user windows were owned. -/
theorem allocateTlb_runs_out {c c' : DriverConfig} {fo : FileObject} {k : NtStatus × Nat → Drv Unit} {t : Tid}
    (h : Reach driver anyStep c) (hp : c.pool t = some (ioctlAllocateTlb (some fo) >>= k))
    (hrun : During driver anyStep t c c') : ∃ evs q, c'.pool t = some q ∧
      (ioctlAllocateTlb (some fo) >>= k).Leads evs q ∧ ∀ before after n, evs = after ++ before →
        (ioctlAllocateTlb (some fo)).Leads before (.pure (.insufficientResources, n)) →
          ∃ c₁, During driver anyStep t c c₁ ∧ During driver anyStep t c₁ c' ∧
            ∀ i < kernelTlbIndex, c₁.world.ctx.tlbOwner i ≠ none := by
  obtain ⟨evs, q, hq, hleads, hmoments⟩ := hrun.history hp
  refine ⟨evs, q, hq, hleads, ?_⟩
  rintro before after n rfl hreturned
  have hmem := ioctlAllocateTlb_ran_out hreturned (fun len s hev => ?_) fun len s hev => ?_
  · obtain ⟨c₁, c₂, hbefore, hown, hafter⟩ := hmoments _ _ (List.mem_append_right _ hmem)
    exact ⟨c₁, hbefore, hown.during.trans hafter, allocateTlb_full (h.run hbefore.run) hown⟩
  · obtain ⟨c₁, c₂, -, hown, -⟩ := hmoments _ _ (List.mem_append_right _ hev)
    cases hown with
    | @exec _ e w _ _ he =>
      have he : c₁.world.exec t (.inputBuffer len) e = some (s, w) := he
      exact exec_inputBuffer he
  · obtain ⟨c₁, c₂, -, hown, -⟩ := hmoments _ _ (List.mem_append_right _ hev)
    cases hown with
    | @exec _ e w _ _ he =>
      have he : c₁.world.exec t (.outputBuffer len) e = some (s, w) := he
      exact exec_outputBuffer he

/-- In every reachable state, bitmap, owner table and mapping list agree; a window changes
hands only by way of being unowned, is freed only with no listed record backed by it, and
ALLOCATE_TLB runs out only when all 201 user windows are owned, alone or among other threads'
steps. -/
theorem tlb_allocator_agrees {c : Config DriverSig Tid World} (h : Reach driver anyStep c) :
    (∀ i < tlb2mCount, c.world.ctx.tlbBitmap i = true ↔
      c.world.ctx.tlbOwner i ≠ none ∨ i = kernelTlbIndex) ∧
    c.world.ctx.tlbOwner kernelTlbIndex = none ∧
    (∀ m ∈ c.world.ctx.mappingList, 0 ≤ m.tlbId →
      m.tlbId < kernelTlbIndex ∧ c.world.ctx.tlbOwner m.tlbId.toNat = some m.fileObject) ∧
    (∀ c', Step driver anyStep c c' → ∀ i fo fo', c.world.ctx.tlbOwner i = some fo →
      c'.world.ctx.tlbOwner i = some fo' → fo' = fo) ∧
    (∀ c', Step driver anyStep c c' → ∀ m ∈ c'.world.ctx.mappingList, 0 ≤ m.tlbId →
      c'.world.ctx.tlbOwner m.tlbId.toNat = some m.fileObject) ∧
    (∀ t fo w' n,
      Solo driverMachine t (ioctlAllocateTlb (some fo)) c.world (.insufficientResources, n) w' →
      ∀ i < kernelTlbIndex, c.world.ctx.tlbOwner i ≠ none) ∧
    (∀ c' t fo, Own driver anyStep t (.locked (.allocateTlb fo)) none c c' →
      ∀ i < kernelTlbIndex, c.world.ctx.tlbOwner i ≠ none) := by
  have hinv := reach_allocatorInv h
  refine ⟨fun i _ => hinv.bitmap i, hinv.kernel, fun m hm h0 => ?_, ?_, ?_, ?_, fun c' t fo => allocateTlb_full h⟩
  · have howner := hinv.records m hm h0
    have hlt : m.tlbId.toNat < kernelTlbIndex := hinv.user_of_owned (by simp [howner])
    exact ⟨by omega, howner⟩
  · intro c' hs i fo fo'
    exact step_owner h hs
  · intro c' hs
    exact (reach_allocatorInv (h.step hs)).records
  · intro t fo w' n hrun
    exact hinv.all_owned (ioctlAllocateTlb_full hrun)

/-- A handle is opened and allocates a window. -/
def allocatingRun : List Move :=
  opens 1 0 ++ [.ioctl allocateRequest .allocateTlb 0, .ops .ioctl (plainOps 10), .ends .ioctl]

theorem tlb_allocator_agrees_allocated :
    ∃ c : DriverConfig, Reach driver anyStep c ∧ c.world.ctx.tlbOwner 0 = some 1 ∧
      c.world.ctx.tlbBitmap 0 = true := by
  have hplay : (DriverConfig.play (fun _ _ _ => true) allocatingRun idle).any
      (fun c => c.world.ctx.tlbOwner 0 == some 1) = true := by decide
  obtain ⟨c, hreach, howner⟩ := DriverConfig.exists_reach (fun _ _ _ _ => trivial) hplay
  have howner : c.world.ctx.tlbOwner 0 = some 1 := beq_iff_eq.mp howner
  exact ⟨c, hreach, howner,
    ((tlb_allocator_agrees hreach).1 0 (by decide)).mpr (.inl (by simp [howner]))⟩

end TtWind
